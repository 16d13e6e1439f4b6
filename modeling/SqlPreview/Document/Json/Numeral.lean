import SqlPreview.Decimal.Reading
import SqlPreview.Parameter.Value

namespace SqlPreview.Json

-- Adds digits to a number as long as it fits into sixty-four bits. The second part counts the
-- digits that are left out.
def gather (n : Nat) : Text → Nat × Nat
  | [] => (n, 0)
  | d :: digits =>
    let next := 10 * n + (d.toNat - '0'.toNat)
    if next < Decimal.wordBound then gather next digits else (n, digits.length + 1)

-- The largest power of ten that one step of `scale` uses.
def maxPower : Nat := 308

-- The number `x * 10 ^ exponent`, none if it is too large. A small exponent takes several
-- divisions, each of them rounded; `divisions` of them leave nothing of a number of twenty
-- digits.
def scale (x : Float) (exponent : Int) : (divisions : Nat) → Option Float
  | 0 => some 0
  | divisions + 1 =>
    if exponent.natAbs ≤ maxPower then
      let power := Decimal.round 1 exponent.natAbs
      if 0 ≤ exponent then
        if (x * power).isInf then none else some (x * power)
      else some (x / power)
    else if x == 0 then some x
    else if 0 ≤ exponent then none
    else scale (x / Decimal.round 1 maxPower) (exponent + maxPower) divisions

-- The largest exponent of thirty-two bits with a sign.
def maxExponent : Nat := 0x7fffffff

-- A number with a fraction or an exponent. An exponent that does not fit into thirty-two bits
-- counts as unbounded.
def fractional? (digits : Nat) (place : Int) (exponent : Int) : Option Float :=
  if maxExponent < exponent.natAbs then
    if digits ≠ 0 ∧ 0 ≤ exponent then none else some 0
  else scale (Decimal.round digits 0) (place + exponent) 4

-- A whole number is an integer if it fits into sixty-four bits with its sign.
def whole (negative : Bool) (n : Nat) : Value :=
  if negative then
    if n = 0 ∨ Decimal.intBound < n then .float (-Decimal.round n 0) else .int (-n)
  else if n < Decimal.intBound then .int n else .float (Decimal.round n 0)

-- Reads the fraction of a number: digits behind a point.
def splitFraction? : Text → Option (Option Text × Text)
  | '.' :: t =>
    let digits := t.takeWhile Char.isDigit
    if digits = [] then none else some (some digits, t.dropWhile Char.isDigit)
  | t => some (none, t)

-- Reads the exponent of a number.
def splitExponent? : Text → Option (Option Int × Text)
  | c :: t =>
    if c = 'e' ∨ c = 'E' then
      let (negative, t) := Decimal.splitSign t
      (Decimal.readNat? (t.takeWhile Char.isDigit)).map fun n =>
        (some (if negative then -(n : Int) else n), t.dropWhile Char.isDigit)
    else some (none, c :: t)
  | [] => some (none, [])

structure Numeral where
  negative : Bool
  digits : Text
  fraction : Option Text
  exponent : Option Int

-- The value of a number. Its digits count up to sixty-four bits; further ones only move the
-- point.
def Numeral.value? (numeral : Numeral) : Option Value :=
  let (n, left) := gather 0 numeral.digits
  if numeral.fraction.isNone ∧ numeral.exponent.isNone ∧ left = 0 then
    some (whole numeral.negative n)
  else
    let fraction := numeral.fraction.getD []
    let (n, leftBehind) := gather n fraction
    let place : Int := left - (fraction.length - leftBehind : Nat)
    (fractional? n place (numeral.exponent.getD 0)).map fun x =>
      .float (if numeral.negative then -x else x)

def unsigned (t : Text) : Text :=
  match t with
  | '-' :: t => t
  | t => t

-- Reads a number. Zero is the only number that begins with a zero digit.
def readNumeral? (t : Text) : Option (Numeral × Text) := do
  let digits := (unsigned t).takeWhile Char.isDigit
  if digits = [] ∨ (digits.head? = some '0' ∧ 1 < digits.length) then none
  else
    let (fraction, rest) ← splitFraction? ((unsigned t).dropWhile Char.isDigit)
    let (exponent, rest) ← splitExponent? rest
    return (⟨t.head? == some '-', digits, fraction, exponent⟩, rest)

def readNumber? (t : Text) : Option (Value × Text) := do
  let (numeral, rest) ← readNumeral? t
  let value ← numeral.value?
  return (value, rest)

theorem length_le_of_splitFraction? {t rest : Text} {fraction : Option Text}
    (h : splitFraction? t = some (fraction, rest)) : rest.length ≤ t.length := by
  unfold splitFraction? at h
  split at h
  · next t =>
    simp only at h
    split at h
    · cases h
    · cases h
      have := (List.dropWhile_suffix Char.isDigit (l := t)).length_le
      simp only [List.length_cons]
      omega
  · cases h
    exact Nat.le_refl _

theorem length_splitSign_le (t : Text) : (Decimal.splitSign t).2.length ≤ t.length := by
  unfold Decimal.splitSign
  split <;> simp

theorem length_le_of_splitExponent? {t rest : Text} {exponent : Option Int}
    (h : splitExponent? t = some (exponent, rest)) : rest.length ≤ t.length := by
  unfold splitExponent? at h
  split at h
  · next c t =>
    split at h
    · simp only [Option.map_eq_some_iff, Prod.mk.injEq] at h
      obtain ⟨_, _, _, rfl⟩ := h
      have h1 := (List.dropWhile_suffix Char.isDigit (l := (Decimal.splitSign t).2)).length_le
      have h2 := length_splitSign_le t
      simp only [List.length_cons]
      omega
    · cases h
      exact Nat.le_refl _
  · cases h
    exact Nat.le_refl _

theorem length_unsigned_le (t : Text) : (unsigned t).length ≤ t.length := by
  unfold unsigned
  split <;> simp

theorem shortens_readNumeral? (t : Text) : Text.Shortens t (readNumeral? t) := by
  intro pair hp
  simp only [readNumeral?, Option.mem_def] at hp
  split at hp
  · cases hp
  · next hd =>
    simp only [Option.bind_eq_bind, Option.bind_eq_some_iff, Prod.exists] at hp
    obtain ⟨fraction, behind, hf, exponent, rest, he, h⟩ := hp
    cases h
    have h1 := length_le_of_splitFraction? hf
    have h2 := length_le_of_splitExponent? he
    have h3 := length_unsigned_le t
    have h4 := congrArg List.length
      (List.takeWhile_append_dropWhile (p := Char.isDigit) (l := unsigned t))
    have h5 : 0 < ((unsigned t).takeWhile Char.isDigit).length :=
      List.length_pos_iff.2 fun h0 => hd (Or.inl h0)
    rw [List.length_append] at h4
    simp only
    omega

theorem shortens_readNumber? (t : Text) : Text.Shortens t (readNumber? t) := by
  intro pair hp
  simp only [readNumber?, Option.mem_def, Option.bind_eq_bind, Option.bind_eq_some_iff,
    Prod.exists] at hp
  obtain ⟨numeral, rest, hn, _, _, h⟩ := hp
  cases h
  exact (shortens_readNumeral? t).length_lt hn

end SqlPreview.Json
