import SqlPreview.Decimal.Reading

namespace SqlPreview.Toml

structure Date where
  year : Nat
  month : Nat
  day : Nat
deriving DecidableEq, Repr

structure Time where
  hour : Nat
  minute : Nat
  second : Nat
  nanosecond : Nat
deriving DecidableEq, Repr

-- The difference to universal time, in minutes; none for universal time itself.
abbrev Offset := Option Int

-- A number of `width` digits at least, with zeros in front.
def padded (width n : Nat) : Text :=
  let digits := Nat.toDigits 10 n
  List.replicate (width - digits.length) '0' ++ digits

def isLeap (year : Nat) : Bool :=
  year % 4 == 0 && (year % 100 != 0 || year % 400 == 0)

def daysIn (year month : Nat) : Nat :=
  if month = 2 then if isLeap year then 29 else 28
  else if month ∈ [4, 6, 9, 11] then 30 else 31

def readDigits? (width : Nat) (t : Text) : Option (Nat × Text) :=
  let digits := t.take width
  if digits.length = width ∧ digits.all Char.isDigit then
    (Decimal.readNat? digits).map fun n => (n, t.drop width)
  else none

def readDate? (t : Text) : Option (Date × Text) := do
  let (year, t) ← readDigits? 4 t
  let (month, t) ← readDigits? 2 (← Text.after? ['-'] t)
  let (day, t) ← readDigits? 2 (← Text.after? ['-'] t)
  if 1 ≤ month ∧ month ≤ 12 ∧ 1 ≤ day ∧ day ≤ daysIn year month then some (⟨year, month, day⟩, t)
  else none

-- The nanoseconds that the digits behind the point of a second stand for. Nine of them count.
def nanoseconds? (digits : Text) : Option Nat :=
  (Decimal.readNat? (digits.take 9)).map fun n => n * Nat.pow 10 (9 - digits.length)

-- Reads the fraction of a second, which may be missing.
def readFraction? : Text → Option (Nat × Text)
  | '.' :: t =>
    (nanoseconds? (t.takeWhile Char.isDigit)).map fun n => (n, t.dropWhile Char.isDigit)
  | t => some (0, t)

-- Reads a time at the head of a text. A leap second is allowed in every minute, and a time without
-- a second is that of the full minute.
def readTime? (t : Text) : Option (Time × Text) := do
  let (hour, t) ← readDigits? 2 t
  let (minute, t) ← readDigits? 2 (← Text.after? [':'] t)
  if 23 < hour ∨ 59 < minute then none
  match t with
  | ':' :: t =>
    let (second, t) ← readDigits? 2 t
    let (nanosecond, t) ← readFraction? t
    if 60 < second then none else some (⟨hour, minute, second, nanosecond⟩, t)
  | t => some (⟨hour, minute, 0, 0⟩, t)

-- Reads the difference to universal time, which must be less than a day.
def readOffset? (t : Text) : Option Offset := do
  match t with
  | 'Z' :: [] | 'z' :: [] => some none
  | sign :: t =>
    let (hours, t) ← readDigits? 2 t
    let (minutes, t) ← readDigits? 2 (← Text.after? [':'] t)
    let total := 60 * hours + minutes
    if t ≠ [] ∨ 23 < hours ∨ 59 < minutes then none
    else if sign = '+' then some (some total)
    else if sign = '-' then some (some (-total))
    else none
  | [] => none

def Date.toText (date : Date) : Text :=
  padded 4 date.year ++ '-' :: padded 2 date.month ++ '-' :: padded 2 date.day

-- A fraction of a second without the zeros at its end, or nothing if it is zero.
def fractionText (nanosecond : Nat) : Text :=
  if nanosecond = 0 then []
  else '.' :: ((padded 9 nanosecond).reverse.dropWhile (· == '0')).reverse

def Time.toText (time : Time) : Text :=
  padded 2 time.hour ++ ':' :: padded 2 time.minute ++ ':' :: padded 2 time.second ++
    fractionText time.nanosecond

def offsetText : Offset → Text
  | none => ['Z']
  | some minutes =>
    (if minutes < 0 then '-' else '+') :: padded 2 (minutes.natAbs / 60) ++
      ':' :: padded 2 (minutes.natAbs % 60)

-- Is the character one of those between a date and a time?
def isDateBreak (c : Char) : Bool :=
  c == 'T' || c == 't' || c == ' '

-- Is a text a full date, behind which a time may follow?
def isDate (t : Text) : Bool :=
  match readDate? t with
  | some (_, []) => true
  | _ => false

-- The one form of a date, a time, or both, with or without a difference to universal time.
def dateText? (t : Text) : Option Text :=
  match readDate? t with
  | some (date, []) => some date.toText
  | some (date, c :: t) =>
    if isDateBreak c then
      (readTime? t).bind fun (time, t) =>
        let written := date.toText ++ 'T' :: time.toText
        if t = [] then some written
        else (readOffset? t).map fun offset => written ++ offsetText offset
    else none
  | none =>
    match readTime? t with
    | some (time, []) => some time.toText
    | _ => none

end SqlPreview.Toml
