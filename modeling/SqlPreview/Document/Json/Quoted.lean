import SqlPreview.Decimal.Reading
import SqlPreview.Text.Basic

namespace SqlPreview.Json

-- A character of a quoted text, or one sixteen-bit unit given by its number.
inductive Element where
  | char (c : Char)
  | unit (n : Nat)

-- The characters that stand for themselves or for a control character behind a backslash.
def escapes : List (Char × Char) :=
  [('"', '"'), ('\\', '\\'), ('/', '/'), ('b', '\x08'), ('f', '\x0c'), ('n', '\n'), ('r', '\r'),
    ('t', '\t')]

def Element.before (element : Element) (read : List Element × Text) : List Element × Text :=
  (element :: read.1, read.2)

-- Reads up to the closing quote. Control characters must be escaped.
def elements? : Text → Option (List Element × Text)
  | [] => none
  | '"' :: t => some ([], t)
  | '\\' :: 'u' :: a :: b :: c :: d :: t =>
    (Decimal.readBase? 16 [a, b, c, d]).bind fun n =>
      (elements? t).map (Element.before (.unit n))
  | '\\' :: c :: t =>
    (escapes.lookup c).bind fun char => (elements? t).map (Element.before (.char char))
  | c :: t => if c < ' ' then none else (elements? t).map (Element.before (.char c))

-- Puts the two units of a pair together. A unit of a pair may not stand alone.
def characters? : List Element → Option Text
  | [] => some []
  | .char c :: rest => (characters? rest).map (c :: ·)
  | .unit n :: rest =>
    if n < 0xd800 ∨ 0xe000 ≤ n then (characters? rest).map (Char.ofNat n :: ·)
    else
      match rest with
      | .unit m :: rest =>
        if n < 0xdc00 ∧ 0xdc00 ≤ m ∧ m < 0xe000 then
          (characters? rest).map (Char.ofNat (0x10000 + 0x400 * (n - 0xd800) + (m - 0xdc00)) :: ·)
        else none
      | _ => none

-- Reads a quoted text behind its opening quote.
def readText? (t : Text) : Option (Text × Text) := do
  let (elements, rest) ← elements? t
  let t ← characters? elements
  return (t, rest)

theorem shortens_before {t : Text} {found : Option (List Element × Text)}
    (h : Text.Shortens t found) (element : Element) :
    Text.Shortens t (found.map (Element.before element)) :=
  h.map (element :: ·)

theorem shortens_elements? (t : Text) : Text.Shortens t (elements? t) := by
  fun_induction elements? t with
  | case1 => exact Text.shortens_none _
  | case2 t => exact Text.shortens_some (Nat.lt_succ_self _)
  | case3 a b c d t ih =>
    refine Text.shortens_bind fun n => shortens_before (ih.mono ?_) _
    simp only [List.length_cons]
    omega
  | case4 c t _ ih => exact Text.shortens_bind fun char => shortens_before ((ih.cons c).cons _) _
  | case5 => exact Text.shortens_none _
  | case6 c t _ _ _ _ ih => exact shortens_before (ih.cons c) _

theorem shortens_readText? (t : Text) : Text.Shortens t (readText? t) := by
  intro pair hp
  simp only [readText?, Option.mem_def, Option.bind_eq_bind, Option.bind_eq_some_iff,
    Prod.exists] at hp
  obtain ⟨elements, rest, he, _, _, h⟩ := hp
  cases h
  exact (shortens_elements? t).length_lt he

end SqlPreview.Json
