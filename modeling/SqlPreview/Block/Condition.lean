import SqlPreview.Parameter.Name
import SqlPreview.Parameter.Value

namespace SqlPreview

inductive Literal where
  | null
  | empty
  | zero
deriving DecidableEq, Repr

namespace Literal

def toText : Literal → Text
  | null => "null".toList
  | empty => ['\x27', '\x27']
  | zero => ['0']

def ofText? (t : Text) : Option Literal :=
  [null, empty, zero].find? fun literal => literal.toText == t

-- Does a value differ from the literal? A blank value counts as null and as empty, and zero is
-- known by its text.
def differs (value : Value) : Literal → Bool
  | null | empty => !value.isBlank
  | zero => Text.trim value.toText != ['0']

end Literal

-- A comparison `name != literal`.
structure Comparison where
  name : Text
  literal : Literal
deriving DecidableEq, Repr

namespace Comparison

-- Blanks may stand around a comparison and around its sign.
def read? (t : Text) : Option Comparison := do
  let (name, rest) ← Name.split? (Text.trim t)
  let rest ← Text.after? "!=".toList (Text.trimStart rest)
  let literal ← Literal.ofText? (Text.trimStart rest)
  return ⟨name, literal⟩

-- A comparison of a missing parameter never holds.
def holds (params : Params) (comparison : Comparison) : Bool :=
  match params.get? comparison.name with
  | some value => comparison.literal.differs value
  | none => false

end Comparison

namespace Condition

-- The parts of a test between its whole words `and`.
def parts (test : Text) : List Text :=
  ((Text.runs test).splitOn "and".toList).map List.flatten

-- A part of any other shape than that of a comparison holds, so that a block whose test is not
-- understood is kept.
def holds (params : Params) (test : Text) : Bool :=
  (parts test).all fun part => (Comparison.read? part).all (Comparison.holds params)

end Condition

end SqlPreview
