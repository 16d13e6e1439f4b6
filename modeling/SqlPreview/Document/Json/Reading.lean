import SqlPreview.Document.Json.Token

namespace SqlPreview.Json

-- An open list with its items, last first, or an open record with its fields and the name of the
-- field that is read.
inductive Frame where
  | list (items : List Value)
  | record (fields : Table Value) (name : Text)

inductive Mode where
  | value
  | firstItem
  | firstName
  | name
  | colon
  | next
  | done (value : Value)

structure State where
  frames : List Frame
  mode : Mode

-- The most lists and records that may be open at once.
def maxDepth : Nat := 127

namespace State

def start : State := ⟨[], .value⟩

def put (value : Value) : List Frame → State
  | [] => ⟨[], .done value⟩
  | .list items :: frames => ⟨.list (value :: items) :: frames, .next⟩
  | .record fields name :: frames => ⟨.record (fields.insert name value) name :: frames, .next⟩

def «open» (frame : Frame) (mode : Mode) (frames : List Frame) : Option State :=
  if frames.length < maxDepth then some ⟨frame :: frames, mode⟩ else none

def begin (frames : List Frame) : Token → Option State
  | .scalar value => some (put value frames)
  | .text t => some (put (.text t) frames)
  | .openList => «open» (.list []) .firstItem frames
  | .openRecord => «open» (.record [] []) .firstName frames
  | _ => none

def close : List Frame → Token → Option State
  | .list items :: frames, .closeList => some (put (.list items.reverse) frames)
  | .record fields _ :: frames, .closeRecord => some (put (.record fields) frames)
  | _, _ => none

def named : List Frame → Token → Option State
  | .record fields _ :: frames, .text name => some ⟨.record fields name :: frames, .colon⟩
  | _, _ => none

def separate : List Frame → Option State
  | .list items :: frames => some ⟨.list items :: frames, .value⟩
  | .record fields name :: frames => some ⟨.record fields name :: frames, .name⟩
  | [] => none

def step (state : State) (token : Token) : Option State :=
  match state.mode, token with
  | .value, token => begin state.frames token
  | .firstItem, token => (close state.frames token).or (begin state.frames token)
  | .firstName, token => (close state.frames token).or (named state.frames token)
  | .name, token => named state.frames token
  | .colon, .colon => some ⟨state.frames, .value⟩
  | .next, .comma => separate state.frames
  | .next, token => close state.frames token
  | _, _ => none

end State

def isSpace (c : Char) : Bool :=
  c == ' ' || c == '\t' || c == '\n' || c == '\r'

-- The tokens of a text. Nothing but spaces may stand between them.
def tokens? (t : Text) : Option (List Token) :=
  List.foldr (fun piece rest =>
    match piece with
    | .mark token => rest.map (token :: ·)
    | .char c => if isSpace c then rest else none) (some []) (token.scan t)

def value? (t : Text) : Option Value := do
  let state ← (← tokens? t).foldlM State.step State.start
  match state.mode with
  | .done value => some value
  | _ => none

-- Reads parameters. The text must write a record.
def params? (t : Text) : Option Params := do
  match ← value? t with
  | .record fields => some fields
  | _ => none

end SqlPreview.Json
