import SqlPreview.Proofs.Statement.Kind

namespace SqlPreview

namespace Text

-- From U+0080 on no character has another capital or another small form. So what holds of the characters
-- below, and of all that are their own capital and small form, holds of every character.
theorem letter_cases {P : Char → Prop} (below : ∀ n < 0x80, P (Char.ofNat n))
    (same : ∀ c : Char, c.toUpper = c → c.toLower = c → P c) (c : Char) : P c := by
  by_cases h : c.toNat < 0x80
  · have hc := below c.toNat h
    rwa [Char.ofNat_toNat] at hc
  · apply same
    · unfold Char.toUpper
      rw [dif_neg]
      rintro ⟨-, hz⟩
      have hle : c.toNat ≤ 'z'.toNat := UInt32.le_iff_toNat_le.mp hz
      exact h (Nat.lt_of_le_of_lt hle (by decide))
    · unfold Char.toLower
      rw [dif_neg]
      rintro ⟨-, hz⟩
      have hle : c.toNat ≤ 'Z'.toNat := UInt32.le_iff_toNat_le.mp hz
      exact h (Nat.lt_of_le_of_lt hle (by decide))

theorem toUpper_toLower (c : Char) : c.toLower.toUpper = c.toUpper := by
  induction c using letter_cases with
  | below n hn => revert n; decide +kernel
  | same c _ hlower => rw [hlower]

theorem toUpper_toUpper (c : Char) : c.toUpper.toUpper = c.toUpper := by
  induction c using letter_cases with
  | below n hn => revert n; decide +kernel
  | same c hupper _ => rw [hupper, hupper]

theorem toUpper_eq_or_isAlpha (c : Char) : c.toUpper = c ∨ c.isAlpha ∧ c.toUpper.isAlpha := by
  induction c using letter_cases with
  | below n hn => revert n; decide +kernel
  | same c hupper _ => exact .inl hupper

-- No letter has a capital that is none.
theorem toUpper_eq_iff {d : Char} (hd : d.isAlpha = false) (c : Char) : c.toUpper = d ↔ c = d := by
  rcases toUpper_eq_or_isAlpha c with h | ⟨hc, hupper⟩
  · rw [h]
  · constructor <;> rintro rfl
    · cases hupper.symm.trans hd
    · cases hc.symm.trans hd

-- Two texts that differ at most in the case of their letters.
def SameLetters (s t : Text) : Prop :=
  s.map Char.toLower = t.map Char.toLower

theorem SameLetters.map_toUpper {s t : Text} (h : SameLetters s t) :
    s.map Char.toUpper = t.map Char.toUpper := by
  have hcapital : Char.toUpper ∘ Char.toLower = Char.toUpper := funext toUpper_toLower
  have hupper := congrArg (List.map Char.toUpper) h
  rwa [List.map_map, List.map_map, hcapital] at hupper

end Text

namespace Statement

open Text (SameLetters toUpper_eq_iff)

-- What may stand in front of a statement, one piece after another.
abbrev Noise : Text → Prop :=
  Skipped fun c => Text.isBlank c ∨ c = '(' ∨ c = ';'

theorem isBreak_of_noise (c : Char) (h : Text.isBlank c ∨ c = '(' ∨ c = ';') : Kind.isBreak c := by
  simpa [Kind.isBreak, or_assoc] using h

theorem afterBlockEnd?_cons_cons (c d : Char) (t : Text) :
    afterBlockEnd? (c :: d :: t) = if c = '*' ∧ d = '/' then some t else afterBlockEnd? (d :: t) := by
  split
  · next h => rw [h.1, h.2, afterBlockEnd?]
  · next h =>
    rw [afterBlockEnd?]
    rintro u rfl heq
    cases heq
    exact h ⟨rfl, rfl⟩

theorem afterComment?_cons_cons (c d : Char) (t : Text) :
    afterComment? (c :: d :: t) =
      if c = '-' ∧ d = '-' then some (t.dropWhile (· != '\n'))
      else if c = '/' ∧ d = '*' then afterBlockEnd? t else none := by
  split
  · next h => rw [h.1, h.2, afterComment?]
  · next hline =>
    split
    · next h => rw [h.1, h.2, afterComment?]
    · next hblock =>
      rw [afterComment?]
      · rintro u heq
        cases heq
        exact hline ⟨rfl, rfl⟩
      · rintro u heq
        cases heq
        exact hblock ⟨rfl, rfl⟩

theorem afterBlockEnd?_map_toUpper (t : Text) :
    afterBlockEnd? (t.map Char.toUpper) = (afterBlockEnd? t).map (List.map Char.toUpper) := by
  have hstar := toUpper_eq_iff (d := '*') (by decide)
  have hslash := toUpper_eq_iff (d := '/') (by decide)
  induction t with
  | nil => rfl
  | cons c t ih =>
    cases t with
    | nil => simp [afterBlockEnd?]
    | cons d t =>
      simp only [List.map_cons, afterBlockEnd?_cons_cons, hstar, hslash] at ih ⊢
      rw [ih]
      split <;> rfl

-- A comment is as long whatever letters stand in it.
theorem afterComment?_map_toUpper (t : Text) :
    afterComment? (t.map Char.toUpper) = (afterComment? t).map (List.map Char.toUpper) := by
  have hdash := toUpper_eq_iff (d := '-') (by decide)
  have hstar := toUpper_eq_iff (d := '*') (by decide)
  have hslash := toUpper_eq_iff (d := '/') (by decide)
  cases t with
  | nil => rfl
  | cons c t =>
    cases t with
    | nil => simp [afterComment?]
    | cons d t =>
      have hbreak : ((· != '\n') ∘ Char.toUpper) = (· != '\n') := by
        funext e
        rw [Function.comp_apply, Bool.eq_iff_iff, bne_iff_ne, bne_iff_ne, Ne, toUpper_eq_iff (by decide)]
      simp only [List.map_cons, afterComment?_cons_cons, hdash, hstar, hslash, List.dropWhile_map, hbreak,
        afterBlockEnd?_map_toUpper]
      split
      · rfl
      · split <;> rfl

namespace Kind

theorem isBreak_toUpper (c : Char) : isBreak c.toUpper = isBreak c := by
  induction c using Text.letter_cases with
  | below n hn => revert n; decide +kernel
  | same c hupper _ => rw [hupper]

theorem splitOnP_map_toUpper (t : Text) :
    (t.map Char.toUpper).splitOnP isBreak = (t.splitOnP isBreak).map (List.map Char.toUpper) := by
  induction t with
  | nil => rfl
  | cons c t ih =>
    rw [List.map_cons, List.splitOnP_cons_eq_if_modifyHead, List.splitOnP_cons_eq_if_modifyHead, ih,
      isBreak_toUpper]
    obtain ⟨word, words, ht⟩ := List.exists_cons_of_ne_nil (List.splitOnP_ne_nil isBreak t)
    rw [ht]
    split <;> rfl

-- The words of a statement in capitals are those of the statement.
theorem words_map_toUpper (sql : Text) : words (sql.map Char.toUpper) = words sql := by
  have hcomments : withoutComments (sql.map Char.toUpper) = (withoutComments sql).map Char.toUpper :=
    Mark.replace_ofRest_map afterComment?_map_toUpper (by decide) sql
  have hfilter : ((· != []) ∘ List.map Char.toUpper) = fun word : Text => word != [] := by
    funext word
    cases word <;> rfl
  have hupper : ∀ word : Text, (word.map Char.toUpper).map Char.toUpper = word.map Char.toUpper := by
    intro word
    rw [List.map_map]
    exact List.map_congr_left fun c _ => Text.toUpper_toUpper c
  rw [words_eq, hcomments, wordsOf, splitOnP_map_toUpper, List.filter_map, hfilter, List.map_map,
    words_eq, wordsOf]
  exact List.map_congr_left fun word _ => hupper word

end Kind

-- What stands in front of a statement does not change its kind, nor does the case of its letters.
theorem kind?_noise_append :
    (∀ noise sql, Noise noise → kind? (noise ++ sql) = kind? sql) ∧
      ∀ sql sql', SameLetters sql sql' → kind? sql = kind? sql' := by
  refine ⟨fun noise sql h => ?_, fun sql sql' h => ?_⟩
  · exact h.kind?_append isBreak_of_noise sql
  · rw [kind?, ← Kind.words_map_toUpper, h.map_toUpper, Kind.words_map_toUpper, kind?]

-- The comments begin and end in each other's signs, and one holds a statement.
theorem kind?_noise_append_drop :
    let noise := '(' :: ("--".toList ++ "/* it's".toList ++ '\n' ::
      ("/*".toList ++ "/-- ; delete *".toList ++ "*/".toList ++ ['\t', ';']))
    let sql := "drop/**/Temporary tabLe users".toList
    let sql' := "DROP/**/TEMPORARY TABLE Users".toList
    Noise noise ∧ SameLetters sql sql' ∧ kind? (noise ++ sql) = kind? sql ∧ kind? sql = kind? sql' ∧
      kind? sql' = some .dropTable := by
  intro noise sql sql'
  have hnoise : Noise noise := .sign _ _ (by decide) (.line _ _ (by decide) (.block _ _ (by decide +kernel)
    (.sign _ _ (by decide) (.sign _ _ (by decide) .nil))))
  have hletters : SameLetters sql sql' := by
    unfold SameLetters
    decide
  exact ⟨hnoise, hletters, kind?_noise_append.1 noise sql hnoise,
    kind?_noise_append.2 sql sql' hletters, by decide +kernel⟩

end Statement

end SqlPreview
