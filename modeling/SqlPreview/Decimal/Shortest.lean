import SqlPreview.Text.Basic

namespace SqlPreview.Decimal

-- A positive number with the interval of reals that round to it. The three are numerators over
-- `denominator`. The ends belong to the interval when `closed` holds.
structure Interval where
  low : Nat
  value : Nat
  high : Nat
  denominator : Nat
  closed : Bool

-- The interval of `significand * 2 ^ exponent`. Below a power of two the neighbour is half as far
-- away, which `narrow` tells. A number with an even significand wins both ties.
def Interval.ofBinary (significand : Nat) (exponent : Int) (narrow : Bool) : Interval :=
  let unit := Nat.pow 2 (exponent - 2).toNat
  { low := (4 * significand - if narrow then 1 else 2) * unit
    value := 4 * significand * unit
    high := (4 * significand + 2) * unit
    denominator := Nat.pow 2 (2 - exponent).toNat
    closed := significand % 2 == 0 }

-- The same interval in units of `10 ^ place`.
def Interval.scale (interval : Interval) (place : Int) : Interval :=
  let up := Nat.pow 10 (-place).toNat
  { low := interval.low * up
    value := interval.value * up
    high := interval.high * up
    denominator := interval.denominator * Nat.pow 10 place.toNat
    closed := interval.closed }

def Interval.holds (interval : Interval) (n : Nat) : Bool :=
  let point := n * interval.denominator
  if interval.closed then decide (interval.low ≤ point) && decide (point ≤ interval.high)
  else decide (interval.low < point) && decide (point < interval.high)

-- The whole number in the interval that is nearest to its value, if there is one. Only the two
-- neighbours of the value can be it. The upper one wins a tie.
def Interval.nearest? (interval : Interval) : Option Nat :=
  let below := interval.value / interval.denominator
  let rest := interval.value % interval.denominator
  match interval.holds below, interval.holds (below + 1) with
  | true, true => some (if 2 * rest < interval.denominator then below else below + 1)
  | true, false => some below
  | false, true => some (below + 1)
  | false, false => none

-- Digits at a decimal place: `digits * 10 ^ place`.
structure Positional where
  digits : Nat
  place : Int

-- The point of the coarsest grid, of step `10 ^ place` or finer, that lies in the interval. The
-- value itself lies on a grid of step `10 ^ -1074`, so no more than `steps` grids are looked at.
def Interval.shortest (interval : Interval) (place : Int) : (steps : Nat) → Positional
  | 0 => ⟨0, 0⟩
  | steps + 1 =>
    match (interval.scale place).nearest? with
    | some digits => ⟨digits, place⟩
    | none => interval.shortest (place - 1) steps

def digitsOf (n : Nat) : Text :=
  Nat.toDigits 10 n

-- Digits with a point where the place asks for one, filled up with zeros.
def Positional.toText (p : Positional) : Text :=
  let digits := digitsOf p.digits
  let behind := (-p.place).toNat
  if behind = 0 then digits ++ List.replicate p.place.toNat '0'
  else if behind < digits.length then
    digits.take (digits.length - behind) ++ '.' :: digits.drop (digits.length - behind)
  else '0' :: '.' :: List.replicate (behind - digits.length) '0' ++ digits

-- The text of a positive number `significand * 2 ^ exponent`: the fewest digits that read back as
-- the same number, and of those the nearest to it, without an exponent. No digit stands above that
-- of the upper end of its interval.
def binaryText (significand : Nat) (exponent : Int) (narrow : Bool) : Text :=
  let interval := Interval.ofBinary significand exponent narrow
  let top := (digitsOf (interval.high / interval.denominator)).length
  (interval.shortest top (top + 1075)).toText

-- The number of fractions and of exponents in the 64-bit binary format: fifty-two bits and eleven.
def fractions : Nat := 0x10000000000000

def exponents : Nat := 0x800

-- The text of a number in the 64-bit binary format. Its bits are the sign, the exponent and the
-- fraction, from the highest down.
def ofFloat (x : Float) : Text :=
  let bits := x.toBits.toNat
  let negative := bits / fractions / exponents == 1
  let exponent := bits / fractions % exponents
  let fraction := bits % fractions
  let sign : Text := if negative then ['-'] else []
  if exponent = exponents - 1 then
    if fraction = 0 then sign ++ "inf".toList else "NaN".toList
  else if exponent = 0 then
    if fraction = 0 then sign ++ ['0'] else sign ++ binaryText fraction (-1074) false
  else
    sign ++ binaryText (fractions + fraction) ((exponent : Int) - 1075)
      (fraction == 0 && decide (1 < exponent))

end SqlPreview.Decimal
