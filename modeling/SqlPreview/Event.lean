import SqlPreview.Template.Issue
import SqlPreview.Text.Boundary
import SqlPreview.Text.Quoted

namespace SqlPreview

inductive Event where
  | malformed (issue : Issue)
  | unrolling (item : Text) (elements : Nat)
  | rendered (templateLength params blocks issues : Nat) (sql : Text)
  | loadedConfig (path : Text) (params : Nat)
  | missing (names : List Text)
deriving DecidableEq, Repr

namespace Event

-- Levels of detail, the finer one last.
inductive Level where
  | debug
  | trace
deriving DecidableEq, Repr

def Level.name : Level → Text
  | debug => "DEBUG".toList
  | trace => "TRACE".toList

-- Only loops are traced.
def level : Event → Level
  | unrolling .. => .trace
  | _ => .debug

def target : Event → Text
  | malformed _ => "sqlpeek.parse".toList
  | unrolling .. | rendered .. => "sqlpeek.render".toList
  | loadedConfig .. | missing _ => "sqlpeek.cli".toList

-- The longest statement, in bytes, that an event shows in full.
def maxShown : Nat := 200

-- A statement as an event shows it: cut behind the last character that fits, if it is too long.
def shorten (sql : Text) : Text :=
  if Text.byteLength sql ≤ maxShown then sql
  else
    let shown := Text.takeBytes? (Text.lastBoundary sql maxShown) sql
    shown.get (Text.isSome_takeBytes?_lastBoundary sql maxShown) ++ "...".toList

def number (n : Nat) : Text :=
  Nat.toDigits 10 n

def message : Event → Text
  | malformed _ => "malformed markup".toList
  | unrolling .. => "expanding foreach".toList
  | rendered .. => "rendered template".toList
  | loadedConfig .. => "loaded config".toList
  | missing _ => "placeholders without values render empty".toList

def details : Event → List (Text × Text)
  | malformed issue => [("issue".toList, issue.message)]
  | unrolling item elements => [("item".toList, item), ("elements".toList, number elements)]
  | rendered templateLength params blocks issues sql =>
    [("template_len".toList, number templateLength), ("params".toList, number params),
      ("blocks".toList, number blocks), ("issues".toList, number issues),
      ("sql".toList, shorten sql)]
  | loadedConfig path params => [("config".toList, path), ("params".toList, number params)]
  | missing names => [("missing".toList, Text.Quoted.list names)]

def fields (event : Event) : List (Text × Text) :=
  ("message".toList, event.message) :: event.details

end Event

end SqlPreview
