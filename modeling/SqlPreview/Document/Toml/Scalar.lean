import SqlPreview.Document.Toml.Date
import SqlPreview.Parameter.Value

namespace SqlPreview.Toml

-- Drops the underscores of a number. Each of them must stand between two digits of the base.
def withoutUnderscores? (isDigit : Char → Bool) : Text → Option Text
  | [] => some []
  | c :: '_' :: d :: t =>
    if isDigit c ∧ isDigit d then (withoutUnderscores? isDigit (d :: t)).map (c :: ·) else none
  | c :: t => if c = '_' then none else (withoutUnderscores? isDigit t).map (c :: ·)

def readDigitRun? (isDigit : Char → Bool) (t : Text) : Option Text :=
  (withoutUnderscores? isDigit t).filter fun digits => digits != [] && digits.all isDigit

def isBaseDigit (base : Nat) (c : Char) : Bool :=
  (Decimal.digitValue? c).any (· < base)

-- Integers that need the sixty-fourth bit become fractions; larger ones are refused.
def integer? (n : Int) : Option Value :=
  if -Decimal.intBound ≤ n ∧ n < Decimal.intBound then some (.int n)
  else if 0 ≤ n ∧ n < Decimal.wordBound then some (.float (Decimal.round n.natAbs 0))
  else none

def readBased? (base : Nat) (t : Text) : Option Value := do
  let digits ← readDigitRun? (isBaseDigit base) t
  integer? (← Decimal.readBase? base digits)

-- Digits without a needless zero in front.
def readWhole? (t : Text) : Option Text :=
  (readDigitRun? Char.isDigit t).filter fun digits => digits.head? != some '0' || digits.length == 1

def isExponentMark (c : Char) : Bool :=
  c == 'e' || c == 'E'

-- Reads a fraction or an exponent or both, behind the whole digits. A number that is too large is
-- refused.
def readFractional? (t : Text) : Option Float := do
  let mantissa := t.takeWhile (!isExponentMark ·)
  let exponent ← match t.dropWhile (!isExponentMark ·) with
    | [] => some 0
    | _ :: t =>
      let (negative, t) := Decimal.splitSign t
      let n ← Decimal.readNat? (← readDigitRun? Char.isDigit t)
      some (if negative then -(n : Int) else n)
  let whole ← readWhole? (mantissa.takeWhile (· != '.'))
  let fraction ← match mantissa.dropWhile (· != '.') with
    | [] => some []
    | _ :: t => readDigitRun? Char.isDigit t
  let x := Decimal.round (← Decimal.readNat? (whole ++ fraction)) (exponent - fraction.length)
  if x.isInf then none else some x

def readNumber? (negative : Bool) (t : Text) : Option Value :=
  if t = "inf".toList then some (.float (if negative then -(1 / 0) else 1 / 0))
  else if t = "nan".toList then some (.float (0 / 0))
  else if t.any (fun c => c == '.' || isExponentMark c) then
    (readFractional? t).map fun x => .float (if negative then -x else x)
  else
    ((readWhole? t).bind Decimal.readNat?).bind fun n => integer? (if negative then -n else n)

-- The name of the only field of a record that stands for a date or a time.
def dateField : Text :=
  "$__toml_private_datetime".toList

def readScalar? (t : Text) : Option Value :=
  match t with
  | '0' :: 'x' :: digits => readBased? 16 digits
  | '0' :: 'o' :: digits => readBased? 8 digits
  | '0' :: 'b' :: digits => readBased? 2 digits
  | '-' :: number => readNumber? true number
  | '+' :: number => readNumber? false number
  | t =>
    if t = "true".toList then some (.bool true)
    else if t = "false".toList then some (.bool false)
    else (readNumber? false t).or ((dateText? t).map fun date => .record [(dateField, .text date)])

end SqlPreview.Toml
