import SqlPreview.Text.Basic

namespace SqlPreview.Decimal

def digitValue? (c : Char) : Option Nat :=
  if '0' ≤ c ∧ c ≤ '9' then some (c.toNat - '0'.toNat)
  else if 'a' ≤ c ∧ c ≤ 'z' then some (c.toNat - 'a'.toNat + 10)
  else if 'A' ≤ c ∧ c ≤ 'Z' then some (c.toNat - 'A'.toNat + 10)
  else none

-- The number that digits write in a base. Nothing stands for zero.
def readBase? (base : Nat) (t : Text) : Option Nat :=
  t.foldlM (fun n c => do
    let d ← digitValue? c
    if d < base then some (base * n + d) else none) 0

-- Whole numbers of sixty-four bits lie below `wordBound`, and those with a sign between `-intBound`
-- and `intBound`, the lower end included.
def wordBound : Nat := 0x10000000000000000

def intBound : Nat := 0x8000000000000000

def readNat? (t : Text) : Option Nat :=
  if t = [] then none else readBase? 10 t

-- A sign that may be missing, and what follows it.
def splitSign : Text → Bool × Text
  | '-' :: t => (true, t)
  | '+' :: t => (false, t)
  | t => (false, t)

-- The number `digits * 10 ^ place`, rounded to nearest. Beyond the bounds tested here every
-- number is infinite or zero.
def round (digits : Nat) (place : Int) : Float :=
  let length : Int := (Nat.toDigits 10 digits).length
  if digits = 0 then 0
  else if 310 < length + place then 1 / 0
  else if length + place < -330 then 0
  else Float.ofScientific digits (decide (place < 0)) place.natAbs

-- The exponent behind `e`, which may carry a sign.
def readExponent? (t : Text) : Option Int :=
  let (negative, digits) := splitSign t
  (readNat? digits).map fun n => if negative then -(n : Int) else n

-- A number without a sign: digits, a point, or both, then an exponent or none.
def readUnsigned? (t : Text) : Option Float := do
  let whole := t.takeWhile Char.isDigit
  let (fraction, rest) := match t.dropWhile Char.isDigit with
    | '.' :: t => (t.takeWhile Char.isDigit, t.dropWhile Char.isDigit)
    | t => ([], t)
  let digits ← readNat? (whole ++ fraction)
  let exponent ← match rest with
    | [] => some 0
    | c :: t => if c = 'e' ∨ c = 'E' then readExponent? t else none
  return round digits (exponent - fraction.length)

-- A number with a sign or none. The words for infinity and for what is no number may be written
-- in any case.
def read? (t : Text) : Option Float :=
  let (negative, t) := splitSign t
  let size :=
    if Text.spells "inf".toList t ∨ Text.spells "infinity".toList t then some (1 / 0)
    else if Text.spells "nan".toList t then some (0 / 0)
    else readUnsigned? t
  size.map fun x => if negative then -x else x

end SqlPreview.Decimal
