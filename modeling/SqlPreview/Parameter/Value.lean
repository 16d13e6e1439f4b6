import SqlPreview.Decimal.Shortest
import SqlPreview.Table
import SqlPreview.Text.Blank

namespace SqlPreview

-- A parameter value. The fields of a record are a table.
inductive Value where
  | null
  | bool (b : Bool)
  | int (n : Int)
  | float (x : Float)
  | text (t : Text)
  | list (items : List Value)
  | record (fields : List (Text × Value))

abbrev Params := Table Value

namespace Value

def boolText (b : Bool) : Text :=
  if b then "true".toList else "false".toList

-- The decimal digits of a whole number, with a minus sign below zero.
def intText (n : Int) : Text :=
  if n < 0 then '-' :: Decimal.digitsOf n.natAbs else Decimal.digitsOf n.natAbs

mutual

-- The text of a value. Lists and records join the texts of their members with commas.
def toText : Value → Text
  | null => []
  | bool b => boolText b
  | int n => intText n
  | float x => Decimal.ofFloat x
  | text t => t
  | list items => [','].intercalate (itemTexts items)
  | record fields => [','].intercalate (fieldTexts fields)

def itemTexts : List Value → List Text
  | [] => []
  | item :: rest => toText item :: itemTexts rest

def fieldTexts : List (Text × Value) → List Text
  | [] => []
  | (_, value) :: rest => toText value :: fieldTexts rest

end

theorem itemTexts_eq_map (items : List Value) : itemTexts items = items.map toText := by
  induction items with
  | nil => rfl
  | cons item rest ih => simp [itemTexts, ih]

theorem fieldTexts_eq_map (fields : List (Text × Value)) :
    fieldTexts fields = fields.map fun field => toText field.2 := by
  induction fields with
  | nil => rfl
  | cons field rest ih => simp [fieldTexts, ih]

-- A value that counts as not given. Truth values and numbers never do.
def isBlank : Value → Bool
  | null => true
  | bool _ | int _ | float _ => false
  | text t => Text.allBlank t
  | value@(list _) | value@(record _) => Text.allBlank (toText value)

-- The field of a record. Other values have no fields.
def field? (name : Text) : Value → Option Value
  | record fields => Table.get? name fields
  | _ => none

end Value

end SqlPreview
