import SqlPreview.Event

namespace SqlPreview

-- Which events the log shows.
abbrev Filter := Event → Bool

namespace Event

-- How much a log must show to show a level. 0 stands for a log that is off, 1 for errors only.
def Level.rank : Level → Nat
  | debug => 4
  | trace => 5

-- An event as a line of the log, without its time.
def line (event : Event) : Text :=
  event.level.name ++ ' ' :: event.target ++ ':' :: ' ' :: event.message ++
    event.details.flatMap (fun (name, t) => ' ' :: name ++ '=' :: t) ++ ['\n']

end Event

namespace Filter

-- The finest level that is shown of all targets that begin in one way.
structure Directive where
  target : Text
  finest : Nat
deriving DecidableEq, Repr

def Directive.covers (directive : Directive) (event : Event) : Bool :=
  (Text.after? directive.target event.target).isSome

-- Of the directives that cover an event the one with the longest target decides, and of several of
-- these the last one. An event that none covers is not shown.
def ofDirectives (directives : List Directive) : Filter := fun event =>
  let decisive := directives.foldl (fun (found : Option Directive) directive =>
    if directive.covers event && found.all (·.target.length ≤ directive.target.length) then
      some directive
    else found) none
  decisive.any (event.level.rank ≤ ·.finest)

def verbose : Filter :=
  ofDirectives [⟨"sqlpeek".toList, Event.Level.debug.rank⟩]

-- Warnings and errors of all targets.
def default : Filter :=
  ofDirectives [⟨[], 2⟩]

-- The filter of a command that is told to be verbose, or is not and does what the environment says.
def choose (isVerbose : Bool) (ambient : Option Filter) : Filter :=
  if isVerbose then verbose else ambient.getD default

theorem default_eq_false (event : Event) : default event = false := by
  cases event <;> rfl

def levelNames : List (Text × Nat) :=
  [("off".toList, 0), ("error".toList, 1), ("warn".toList, 2), ("info".toList, 3),
    ("debug".toList, 4), ("trace".toList, 5), (['0'], 0), (['1'], 1), (['2'], 2), (['3'], 3),
    (['4'], 4), (['5'], 5)]

def level? (t : Text) : Option Nat :=
  levelNames.lookup (t.map Char.toLower)

-- A level, a target with a level, or a target of which everything is shown.
def directive? (t : Text) : Option Directive :=
  match t.splitOn '=' with
  | [target, level] => (level? level).map fun finest => ⟨target, finest⟩
  | [word] =>
    match level? word with
    | some finest => some ⟨[], finest⟩
    | none => some ⟨word, Event.Level.trace.rank⟩
  | _ => none

-- Reads a row of directives with commas between them. One that cannot be read spoils the row.
def read? (t : Text) : Option Filter :=
  (((t.splitOn ',').filter (· != [])).mapM directive?).map ofDirectives

example : (read? "warn,sqlpeek.cli=debug".toList).map (fun filter =>
    [filter (.missing []), filter (.unrolling [] 0)]) = some [true, false] := by decide

end Filter

end SqlPreview
