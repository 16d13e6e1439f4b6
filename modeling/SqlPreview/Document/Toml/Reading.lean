import SqlPreview.Document.Toml.Scalar
import SqlPreview.Document.Toml.Token
import SqlPreview.Document.Toml.Tree

namespace SqlPreview.Toml

inductive KeyUse where
  | entry
  | field
  | table
  | row
deriving DecidableEq, Repr

-- What a value is read for: an entry of the document, a list with its items, last first, or an
-- inline table with its entries and the key that is read. Keys are given last part first.
inductive Frame where
  | entry (key : List Text)
  | list (items : List Value)
  | table (entries : Entries) (key : List Text)

inductive Mode where
  -- The beginning of a line.
  | line
  -- The rest of a line on which nothing else may stand.
  | lineEnd
  -- What follows the first bracket of a header.
  | header
  -- The second closing bracket of a header.
  | headerEnd (key : List Text)
  -- A part of a key, behind the parts before it.
  | part (use : KeyUse) (key : List Text)
  -- What follows a part of a key.
  | partEnd (use : KeyUse) (key : List Text)
  -- The equals sign behind a key of an inline table, on a later line than the key.
  | equals (key : List Text)
  | value
  -- A value of a list, or its end.
  | item
  -- A key of an inline table, or its end.
  | field
  -- What follows an item or a field.
  | next
  -- An unquoted value up to here.
  | scalar (written : Text)
  -- A date and a space, behind which a time may follow.
  | date (written : Text)

structure State where
  root : Entries
  header : List Text
  frames : List Frame
  mode : Mode

-- The most lists and inline tables that may be open at once.
def maxDepth : Nat := 80

def isBareKey (t : Text) : Bool :=
  t != [] && t.all fun c => c.isAlphanum || c == '_' || c == '-'

def keyPart? : Token → Option Text
  | .run t => if isBareKey t then some t else none
  | .line t => some t
  | _ => none

def addEntry (key : List Text) (value : Value) (entries : Entries) : Option Entries :=
  match key with
  | [] => none
  | last :: before => entries.add before.reverse last value

namespace State

def start : State := ⟨[], [], [], .line⟩

def put (state : State) (value : Value) : Option State :=
  match state.frames with
  | [] => none
  | .entry key :: _ =>
    (state.root.within state.header (addEntry key value)).map fun root =>
      { state with root, frames := [], mode := .lineEnd }
  | .list items :: frames =>
    some { state with frames := .list (value :: items) :: frames, mode := .next }
  | .table entries key :: frames =>
    (addEntry key value entries).map fun entries =>
      { state with frames := .table entries [] :: frames, mode := .next }

-- A list or an inline table begins. The entry that they are read for is a frame too.
def «open» (state : State) (frame : Frame) (mode : Mode) : Option State :=
  if state.frames.length ≤ maxDepth then
    some { state with frames := frame :: state.frames, mode }
  else none

def begin (state : State) : Token → Option State
  | .line t => state.put (.text t)
  | .lines t => state.put (.text t)
  | .run t => some { state with mode := .scalar t }
  | .openSquare => state.open (.list []) .item
  | .openBrace => state.open (.table [] []) .field
  | _ => none

def close (state : State) (token : Token) : Option State :=
  match state.frames, token with
  | .list items :: frames, .closeSquare => { state with frames }.put (.list items.reverse)
  | .table entries _ :: frames, .closeBrace =>
    { state with frames }.put (.record (Item.toFields entries))
  | _, _ => none

def separate (state : State) : Option State :=
  match state.frames with
  | .list _ :: _ => some { state with mode := .item }
  | .table _ _ :: _ => some { state with mode := .field }
  | _ => none

def readPart (state : State) (use : KeyUse) (key : List Text) (token : Token) : Option State :=
  (keyPart? token).map fun part => { state with mode := .partEnd use (part :: key) }

-- Opens the table or row that a header names.
def openHeader (state : State) (key : List Text)
    (open? : List Text → Text → Entries → Option Entries) : Option State :=
  match key with
  | [] => none
  | last :: before =>
    (open? before.reverse last state.root).map fun root =>
      { state with root, header := key.reverse, mode := .lineEnd }

-- The sign that ends a key.
def endKey (state : State) (use : KeyUse) (key : List Text) (token : Token) : Option State :=
  match use, token, state.frames with
  | .entry, .equals, _ => some { state with frames := [.entry key], mode := .value }
  | .field, .equals, .table entries _ :: frames =>
    some { state with frames := .table entries key :: frames, mode := .value }
  | .table, .closeSquare, _ => state.openHeader key Entries.openTable
  | .row, .closeSquare, _ => some { state with mode := .headerEnd key }
  | _, _, _ => none

-- Tokens that count as space inside lists and inline tables.
def isSpaceToken : Token → Bool
  | .blank _ | .lineEnd | .comment => true
  | _ => false

def isBlankToken : Token → Bool
  | .blank _ => true
  | _ => false

def inTable (state : State) : Bool :=
  match state.frames with
  | .table _ _ :: _ => true
  | _ => false

-- A token where no unquoted value is being read.
def stepPlain (state : State) (token : Token) : Option State :=
  match state.mode with
  | .line =>
    if isSpaceToken token then some state
    else if token = .openSquare then some { state with mode := .header }
    else state.readPart .entry [] token
  | .lineEnd =>
    if token = .lineEnd then some { state with mode := .line }
    else if isSpaceToken token then some state
    else none
  | .header =>
    if token = .openSquare then some { state with mode := .part .row [] }
    else if isBlankToken token then some { state with mode := .part .table [] }
    else state.readPart .table [] token
  | .headerEnd key =>
    if token = .closeSquare then state.openHeader key Entries.openRow else none
  | .part use key => if isBlankToken token then some state else state.readPart use key token
  | .partEnd use key =>
    if isBlankToken token then some state
    else if token = .dot then some { state with mode := .part use key }
    else if use = .field ∧ isSpaceToken token then some { state with mode := .equals key }
    else state.endKey use key token
  | .equals key => if isSpaceToken token then some state else state.endKey .field key token
  | .value =>
    if isBlankToken token ∨ (state.inTable ∧ isSpaceToken token) then some state
    else state.begin token
  | .item =>
    if isSpaceToken token then some state
    else if token = .closeSquare then state.close token
    else state.begin token
  | .field =>
    if isSpaceToken token then some state
    else if token = .closeBrace then state.close token
    else state.readPart .field [] token
  | .next =>
    if isSpaceToken token then some state
    else if token = .comma then state.separate
    else state.close token
  | .scalar _ | .date _ => none

def endScalar (state : State) (written : Text) : Option State :=
  (readScalar? written).bind state.put

-- Does a token go on with a time behind a date and a space?
def isTime : Token → Bool
  | .run (c :: _) => c.isDigit
  | _ => false

def step (state : State) (token : Token) : Option State :=
  match state.mode, token with
  | .scalar written, .run t => some { state with mode := .scalar (written ++ t) }
  | .scalar written, .dot => some { state with mode := .scalar (written ++ ['.']) }
  | .scalar written, .blank [' '] =>
    if isDate written then some { state with mode := .date written } else state.endScalar written
  | .scalar written, token => (state.endScalar written).bind (stepPlain · token)
  | .date written, token =>
    match token, isTime token with
    | .run t, true => some { state with mode := .scalar (written ++ ' ' :: t) }
    | token, _ => (state.endScalar written).bind (stepPlain · token)
  | _, token => state.stepPlain token

-- The document ends, which it may do at the end of every line.
def finish (state : State) : Option Entries := do
  let state ← match state.mode with
    | .scalar written | .date written => state.endScalar written
    | _ => some state
  match state.mode with
  | .line | .lineEnd => some state.root
  | _ => none

end State

-- A mark at the beginning of a document that tells its encoding is no part of it.
def withoutMark (t : Text) : Text :=
  match t with
  | '\ufeff' :: t => t
  | t => t

def params? (t : Text) : Option Params := do
  let state ← (← tokens? (withoutMark t)).foldlM State.step State.start
  return Item.toFields (← state.finish)

end SqlPreview.Toml
