import SqlPreview.Proofs.Parameter.Characters
import SqlPreview.Proofs.Text.Split

namespace SqlPreview

namespace Decimal

theorem isDigit_of_mem_digitsOf {n : Nat} {c : Char} (h : c ∈ digitsOf n) : c.isDigit :=
  Nat.isDigit_of_mem_toDigits (by decide) (by decide) h

theorem allBlank_digitsOf (n : Nat) : Text.allBlank (digitsOf n) = false := by
  have hne : digitsOf n ≠ [] := Nat.toDigits_ne_nil
  obtain ⟨c, hc⟩ := List.exists_mem_of_ne_nil _ hne
  exact Text.allBlank_eq_false_of_mem hc (Text.isBlank_of_isDigit (isDigit_of_mem_digitsOf hc))

theorem allBlank_positional (p : Positional) : Text.allBlank p.toText = false := by
  simp only [Positional.toText]
  split
  · rw [Text.allBlank_append, allBlank_digitsOf, Bool.false_and]
  · split
    · exact Text.allBlank_eq_false_of_mem (c := '.') (by simp) (by decide)
    · exact Text.allBlank_eq_false_of_mem (c := '.') (by simp) (by decide)

theorem allBlank_ofFloat (x : Float) : Text.allBlank (ofFloat x) = false := by
  have hbinary : ∀ significand exponent narrow,
      Text.allBlank (binaryText significand exponent narrow) = false :=
    fun _ _ _ => allBlank_positional _
  simp only [ofFloat]
  split
  · split
    · rw [Text.allBlank_append, show Text.allBlank "inf".toList = false by decide, Bool.and_false]
    · decide
  · split
    · split
      · rw [Text.allBlank_append, show Text.allBlank ['0'] = false by decide, Bool.and_false]
      · rw [Text.allBlank_append, hbinary, Bool.and_false]
    · rw [Text.allBlank_append, hbinary, Bool.and_false]

end Decimal

namespace Value

-- A value counts as blank exactly if its text is blank: truth values and numbers have a text that is not.
theorem isBlank_eq_allBlank_toText (value : Value) : value.isBlank = Text.allBlank value.toText := by
  cases value with
  | null => rfl
  | bool b => cases b <;> decide
  | int n =>
    simp only [isBlank, toText, intText]
    split
    · exact (Text.allBlank_eq_false_of_mem (c := '-') (by simp) (by decide)).symm
    · exact (Decimal.allBlank_digitsOf _).symm
  | float x => rw [isBlank, toText, Decimal.allBlank_ofFloat]
  | text t => rw [isBlank, toText]
  | list items => rw [isBlank]
  | record fields => rw [isBlank]

end Value

namespace Loop

-- Splitting at every comma, trimming, and leaving out the empty parts at the end: the cases of a blank
-- text and of a text without a comma come to the same.
theorem textElements_eq (t : Text) :
    textElements t =
      (((t.splitOn ',').map Text.trim).reverse.dropWhile (· == [])).reverse.map .text := by
  have hcomma : Text.isBlank ',' = false := by decide
  have hsingle : ∀ s : Text, ',' ∉ s → s.splitOn ',' = [s] := fun s hs => List.splitOn_eq_singleton hs
  rw [← Text.map_trim_splitOn_trim hcomma, textElements]
  split
  · next hnil => rw [hnil]; rfl
  · next hne =>
    split
    · rfl
    · next hno =>
      rw [hsingle (Text.trim t) (by simpa using hno), List.map_singleton, Text.trim_trim,
        List.reverse_singleton, List.dropWhile_cons_of_neg (by simpa using hne)]
      rfl

-- A row of texts without commas, the last of them not blank, is found again in what it is joined to.
theorem textElements_intercalate {texts : List Text} (hcomma : ∀ t ∈ texts, ',' ∉ t)
    (hlast : ∀ t ∈ texts.getLast?, Text.allBlank t = false) :
    textElements ([','].intercalate texts) = texts.map fun t => .text (Text.trim t) := by
  rcases List.eq_nil_or_concat texts with rfl | ⟨before, last, rfl⟩
  · rfl
  · have hne : Text.trim last ≠ [] := by
      rw [Ne, Text.trim_eq_nil_iff, hlast last (by simp)]
      decide
    rw [textElements_eq, List.splitOn_intercalate ',' hcomma (by simp), List.concat_eq_append,
      List.map_append, List.reverse_append, List.map_singleton, List.reverse_singleton,
      List.singleton_append, List.dropWhile_cons_of_neg (by simpa using hne)]
    simp

end Loop

end SqlPreview
