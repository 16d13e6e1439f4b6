import Mathlib.Data.List.TakeWhile
import SqlPreview.Text.Blank
import SqlPreview.Text.Word

namespace SqlPreview.Text

section Run

variable {p : Char → Bool} {run t : Text}

-- A run in front of something else is taken off whole.
theorem takeWhile_run (hrun : ∀ c ∈ run, p c) (ht : ∀ c ∈ t.head?, p c = false) :
    (run ++ t).takeWhile p = run := by
  rw [List.takeWhile_append_of_pos hrun]
  cases t with
  | nil => simp
  | cons c t => simp [ht c (by simp)]

theorem dropWhile_run (hrun : ∀ c ∈ run, p c) (ht : ∀ c ∈ t.head?, p c = false) :
    (run ++ t).dropWhile p = t := by
  rw [List.dropWhile_append_of_pos hrun]
  cases t with
  | nil => simp
  | cons c t => simp [ht c (by simp)]

end Run

theorem ne_of_not_mem {c d : Char} {t : Text} (h : c ∉ t) (hd : d ∈ t) : (d != c) = true := by
  rw [bne_iff_ne]
  rintro rfl
  exact h hd

theorem dropWhile_ne_eq_nil_iff {c : Char} {t : Text} : t.dropWhile (· != c) = [] ↔ c ∉ t := by
  rw [List.dropWhile_eq_nil_iff]
  exact ⟨fun h hm => by simpa using h c hm, fun h d hd => ne_of_not_mem h hd⟩

-- The code points of a list of ranges, one by one.
def Ranges.points (ranges : Ranges) : List Nat :=
  ranges.flatMap fun (low, high) => List.range' low (high + 1 - low)

theorem Ranges.mem_points_of_holds {ranges : Ranges} {c : Char} (h : ranges.holds c) :
    c.toNat ∈ ranges.points := by
  obtain ⟨range, hr, hlow, hhigh⟩ := Ranges.holds_iff.mp h
  refine List.mem_flatMap.mpr ⟨range, hr, ?_⟩
  rw [List.mem_range'_1]
  omega

-- No blank is a word character.
theorem isWord_of_isBlank {c : Char} (h : isBlank c) : isWord c = false := by
  have hpoints : ∀ n ∈ blankRanges.points, isWord (Char.ofNat n) = false := by decide +kernel
  have hc := hpoints c.toNat (Ranges.mem_points_of_holds h)
  rwa [Char.ofNat_toNat] at hc

theorem allBlank_iff {t : Text} : allBlank t ↔ ∀ c ∈ t, isBlank c := by
  simp [allBlank]

theorem isWord_of_allBlank {t : Text} (h : allBlank t) : ∀ c ∈ t, isWord c = false :=
  fun c hc => isWord_of_isBlank (allBlank_iff.mp h c hc)

@[simp]
theorem allBlank_append (s t : Text) : allBlank (s ++ t) = (allBlank s && allBlank t) := by
  simp [allBlank]

theorem allBlank_eq_false_of_mem {c : Char} {t : Text} (hc : c ∈ t) (hb : isBlank c = false) :
    allBlank t = false := by
  rw [Bool.eq_false_iff]
  intro h
  rw [allBlank_iff.mp h c hc] at hb
  cases hb

theorem isBlank_of_isDigit {c : Char} (h : c.isDigit) : isBlank c = false := by
  have hlow : c.toNat < 0x80 := by
    simp only [Char.isDigit, Bool.and_eq_true, decide_eq_true_eq, UInt32.le_iff_toNat_le] at h
    exact Nat.lt_of_le_of_lt h.2 (by decide)
  cases hb : isBlank c with
  | false => rfl
  | true =>
    have hword := isWord_of_isBlank hb
    simp [isWord, hlow, Char.isAlphanum, h] at hword

theorem isInfix_trim (t : Text) : trim t <:+: t := by
  have hend : trimEnd (trimStart t) <+: trimStart t := by
    rw [trimEnd, ← List.reverse_suffix, List.reverse_reverse]
    exact List.dropWhile_suffix _
  exact hend.isInfix.trans (List.dropWhile_suffix _).isInfix

theorem dropWhile_isBlank_eq_self {t : Text} (h : ∀ c ∈ t, isBlank c = false) :
    t.dropWhile isBlank = t := by
  cases t with
  | nil => rfl
  | cons c t => rw [List.dropWhile_cons_of_neg (by simp [h c])]

-- Without any blank there is nothing to trim.
theorem trim_eq_self {t : Text} (h : ∀ c ∈ t, isBlank c = false) : trim t = t := by
  rw [trim, trimStart, dropWhile_isBlank_eq_self h, trimEnd,
    dropWhile_isBlank_eq_self fun c hc => h c (List.mem_reverse.mp hc), List.reverse_reverse]

theorem mem_of_mem_trim {c : Char} {t : Text} (h : c ∈ trim t) : c ∈ t :=
  (isInfix_trim t).subset h

theorem mem_of_mem_intercalate {c : Char} {separator : Text} {texts : List Text}
    (h : c ∈ separator.intercalate texts) : c ∈ separator ∨ ∃ t ∈ texts, c ∈ t := by
  induction texts with
  | nil => simp at h
  | cons t texts ih =>
    cases texts with
    | nil => exact .inr ⟨t, by simp, by simpa using h⟩
    | cons next texts =>
      rw [List.intercalate_cons_cons, List.mem_append, List.mem_append] at h
      rcases h with (h | h) | h
      · exact .inr ⟨t, by simp, h⟩
      · exact .inl h
      · exact (ih h).imp_right fun ⟨s, hs, hc⟩ => ⟨s, List.mem_cons_of_mem _ hs, hc⟩

theorem mem_intercalate_of_mem {c : Char} {separator t : Text} {texts : List Text} (ht : t ∈ texts)
    (hc : c ∈ t) : c ∈ separator.intercalate texts := by
  induction texts with
  | nil => simp at ht
  | cons first texts ih =>
    cases texts with
    | nil => simpa [← List.mem_singleton.mp ht] using hc
    | cons next texts =>
      rw [List.intercalate_cons_cons, List.mem_append, List.mem_append]
      rcases List.mem_cons.mp ht with rfl | ht
      · exact .inl (.inl hc)
      · exact .inr (ih ht)

theorem mem_of_mem_splitOn {c separator : Char} {part t : Text} (hp : part ∈ t.splitOn separator)
    (hc : c ∈ part) : c ∈ t := by
  have h : c ∈ [separator].intercalate (t.splitOn separator) := mem_intercalate_of_mem hp hc
  rwa [List.intercalate_splitOn] at h

end SqlPreview.Text
