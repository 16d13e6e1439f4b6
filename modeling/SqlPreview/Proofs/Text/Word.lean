import Mathlib.Data.List.Basic
import SqlPreview.Proofs.Text.Basic

namespace SqlPreview.Text

variable {c : Char} {t word : Text}

theorem runs_cons_of_not_word (hc : isWord c = false) (t : Text) : runs (c :: t) = [c] :: runs t := by
  rw [runs]
  split
  · next d run more h => rw [if_neg (by simp [hc]), h]
  · rfl

theorem runs_append_cons (hc : isWord c = false) (s t : Text) :
    runs (s ++ c :: t) = runs s ++ [c] :: runs t := by
  induction s with
  | nil => exact runs_cons_of_not_word hc t
  | cons d s ih =>
    rw [List.cons_append, runs, ih, runs]
    cases hs : runs s with
    | nil => simp [hc]
    | cons run more =>
      cases run with
      | nil => rfl
      | cons e run =>
        simp only [List.cons_append]
        split <;> rfl

-- A stretch without word characters is cut into its characters, and parts what stands around it.
theorem runs_stretch_append {between : Text} (h : ∀ d ∈ between, isWord d = false) (t : Text) :
    runs (between ++ t) = between.map ([·]) ++ runs t := by
  induction between with
  | nil => rfl
  | cons d between ih =>
    rw [List.forall_mem_cons] at h
    rw [List.cons_append, runs_cons_of_not_word h.1, ih h.2, List.map_cons, List.cons_append]

theorem runs_append_stretch_append {between : Text} (hne : between ≠ [])
    (h : ∀ d ∈ between, isWord d = false) (s t : Text) :
    runs (s ++ (between ++ t)) = runs s ++ (between.map ([·]) ++ runs t) := by
  cases between with
  | nil => exact absurd rfl hne
  | cons d between =>
    rw [List.forall_mem_cons] at h
    rw [List.cons_append, runs_append_cons h.1, runs_stretch_append h.2, List.map_cons,
      List.cons_append]

-- A text of word characters only is one word.
theorem runs_of_forall_word (hne : t ≠ []) (h : ∀ d ∈ t, isWord d) : runs t = [t] := by
  induction t with
  | nil => exact absurd rfl hne
  | cons d t ih =>
    rw [List.forall_mem_cons] at h
    cases t with
    | nil => rfl
    | cons e t =>
      have he : isWord e := h.2 e List.mem_cons_self
      rw [runs, ih (by simp) h.2]
      simp [h.1, he]

@[simp]
theorem hasWord_nil (word : Text) : hasWord word [] = false :=
  rfl

-- A word of more than one character is found on one of the two sides.
theorem hasWord_append_cons (hword : word.length ≠ 1) (hc : isWord c = false) (s t : Text) :
    hasWord word (s ++ c :: t) = (hasWord word s || hasWord word t) := by
  have hsingle : spells word [c] = false := by
    rw [Bool.eq_false_iff]
    intro h
    exact hword (by rw [← eq_of_beq h]; rfl)
  rw [hasWord, runs_append_cons hc, List.any_append, List.any_cons, hsingle, Bool.false_or, hasWord,
    hasWord]

theorem hasWord_append (hword : word.length ≠ 1) (s : Text) (ht : ∀ c ∈ t.head?, isWord c = false) :
    hasWord word (s ++ t) = (hasWord word s || hasWord word t) := by
  cases t with
  | nil => rw [List.append_nil, hasWord_nil, Bool.or_false]
  | cons c t =>
    have hcons := hasWord_append_cons hword (ht c rfl) [] t
    rw [List.nil_append, hasWord_nil, Bool.false_or] at hcons
    rw [hasWord_append_cons hword (ht c rfl), hcons]

theorem hasWord_append_of_getLast? (hword : word.length ≠ 1) {s : Text}
    (hs : ∀ c ∈ s.getLast?, isWord c = false) (t : Text) :
    hasWord word (s ++ t) = (hasWord word s || hasWord word t) := by
  rcases List.eq_nil_or_concat' s with rfl | ⟨init, c, rfl⟩
  · rw [List.nil_append, hasWord_nil, Bool.false_or]
  · have hc := hs c List.getLast?_concat
    rw [List.append_assoc, List.singleton_append, hasWord_append_cons hword hc,
      hasWord_append_cons hword hc, hasWord_nil, Bool.or_false]

theorem hasWord_of_forall_word (hne : t ≠ []) (h : ∀ d ∈ t, isWord d) :
    hasWord word t = spells word t := by
  rw [hasWord, runs_of_forall_word hne h, List.any_cons, List.any_nil, Bool.or_false]

theorem toNat_lt_of_isAlphanum (h : c.isAlphanum || c == '_') : c.toNat < 0x80 := by
  have hupper : c.isUpper = decide (c.val ≥ 'A'.val ∧ c.val ≤ 'Z'.val) := rfl
  have hlower : c.isLower = (decide (c.val ≥ 'a'.val) && decide (c.val ≤ 'z'.val)) := rfl
  have hdigit : c.isDigit = (decide (c.val ≥ '0'.val) && decide (c.val ≤ '9'.val)) := rfl
  have hsplit : c.isAlphanum = ((c.isUpper || c.isLower) || c.isDigit) := rfl
  simp only [hsplit, hupper, hlower, hdigit, Bool.or_eq_true, Bool.and_eq_true, decide_eq_true_eq,
    beq_iff_eq, UInt32.le_iff_toNat_le] at h
  rcases h with ((⟨-, h⟩ | ⟨-, h⟩) | ⟨-, h⟩) | rfl
  · exact Nat.lt_of_le_of_lt h (by decide)
  · exact Nat.lt_of_le_of_lt h (by decide)
  · exact Nat.lt_of_le_of_lt h (by decide)
  · decide

theorem isWord_of_isAlphanum (h : c.isAlphanum || c == '_') : isWord c := by
  rw [isWord, if_pos (toNat_lt_of_isAlphanum h), h]

theorem foldCase_of_isAlphanum (h : c.isAlphanum || c == '_') : foldCase c = c.toLower := by
  have hlow := toNat_lt_of_isAlphanum h
  have hne : ∀ d : Char, 0x80 ≤ d.toNat → c ≠ d := by
    rintro d hd rfl
    omega
  rw [foldCase, if_neg (hne _ (by decide)), if_neg (hne _ (by decide))]

end SqlPreview.Text
