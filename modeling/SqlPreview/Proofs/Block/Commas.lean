import Mathlib.Data.List.DropRight
import SqlPreview.Proofs.Block.Clause

namespace SqlPreview.SetClause

-- How many commas a line ends with.
def commas (line : Text) : Nat :=
  (line.rtakeWhile (· == ',')).length

-- The line up to them.
def stem (line : Text) : Text :=
  line.rdropWhile (· == ',')

-- The line with that many commas at its end, instead of its own.
def ending (count : Nat) (line : Text) : Text :=
  stem line ++ List.replicate count ','

theorem commas_concat (line : Text) : commas (line ++ [',']) = commas line + 1 := by
  rw [commas, List.rtakeWhile_concat_pos _ _ _ (by decide), List.length_append, commas]
  rfl

theorem stem_concat (line : Text) : stem (line ++ [',']) = stem line :=
  List.rdropWhile_concat_pos _ _ _ (by decide)

section NoComma

variable {line : Text} (h : line.getLast? ≠ some ',')
include h

theorem commas_eq_zero : commas line = 0 := by
  rw [commas, List.length_eq_zero_iff, List.rtakeWhile_eq_nil_iff]
  intro hne hlast
  rw [List.getLast?_eq_some_getLast hne] at h
  exact h (congrArg some (eq_of_beq hlast))

theorem stem_eq_self : stem line = line := by
  rw [stem, List.rdropWhile_eq_self_iff]
  intro hne hlast
  rw [List.getLast?_eq_some_getLast hne] at h
  exact h (congrArg some (eq_of_beq hlast))

end NoComma

theorem ending_commas (line : Text) : ending (commas line) line = line := by
  have hcommas : line.rtakeWhile (· == ',') = List.replicate (commas line) ',' :=
    List.eq_replicate_iff.mpr ⟨rfl, fun c hc => eq_of_beq (List.mem_rtakeWhile_imp (p := (· == ',')) hc)⟩
  rw [ending, ← hcommas]
  exact List.rdropWhile_append_rtakeWhile

theorem ending_concat (count : Nat) (line : Text) : ending count (line ++ [',']) = ending count line := by
  rw [ending, ending, stem_concat]

theorem ending_inj {count count' : Nat} {line : Text} :
    ending count line = ending count' line ↔ count = count' := by
  refine ⟨fun h => ?_, fun h => h ▸ rfl⟩
  have hlength := congrArg List.length (List.append_cancel_left h)
  rwa [List.length_replicate, List.length_replicate] at hlength

theorem withComma_eq (line : Text) : withComma line = ending (max 1 (commas line)) line := by
  by_cases h : line.getLast? = some ','
  · obtain ⟨init, rfl⟩ := List.getLast?_eq_some_iff.mp h
    have hmax : max 1 (commas (init ++ [','])) = commas (init ++ [',']) := by
      rw [commas_concat]
      omega
    rw [withComma, if_pos h, hmax, ending_commas]
  · rw [withComma, if_neg h, commas_eq_zero h, ending, stem_eq_self h]
    rfl

theorem withoutComma_eq (line : Text) : withoutComma line = ending (commas line - 1) line := by
  by_cases h : line.getLast? = some ','
  · obtain ⟨init, rfl⟩ := List.getLast?_eq_some_iff.mp h
    rw [withoutComma, if_pos h, List.dropLast_concat, commas_concat, ending_concat, Nat.add_sub_cancel,
      ending_commas]
  · rw [withoutComma, if_neg h, commas_eq_zero h, ending, stem_eq_self h]
    exact (List.append_nil line).symm

theorem commas_le_one_iff {line : Text} : commas line ≤ 1 ↔ ¬[',', ','] <:+ line := by
  by_cases h : line.getLast? = some ','
  · obtain ⟨init, rfl⟩ := List.getLast?_eq_some_iff.mp h
    have hsuffix : [',', ','] <:+ init ++ [','] ↔ init.getLast? = some ',' := by
      rw [List.getLast?_eq_some_iff]
      constructor
      · rintro ⟨lead, hlead⟩
        rw [List.append_cons] at hlead
        exact ⟨lead, (List.append_cancel_right hlead).symm⟩
      · rintro ⟨lead, rfl⟩
        exact ⟨lead, by simp⟩
    rw [hsuffix, commas_concat]
    by_cases hinit : init.getLast? = some ','
    · obtain ⟨init, rfl⟩ := List.getLast?_eq_some_iff.mp hinit
      simp [commas_concat]
    · simp [commas_eq_zero hinit, hinit]
  · have hsuffix : ¬[',', ','] <:+ line := by
      rintro ⟨lead, rfl⟩
      simp at h
    simp [commas_eq_zero h, hsuffix]

-- The commas that a line is written with, by its place and by those that it had.
theorem punctuate_eq (lines : List Text) :
    punctuate lines = lines.mapIdx fun i line =>
      ending (if i + 1 < lines.length then max 1 (commas line) else commas line - 1) line := by
  induction lines with
  | nil => rfl
  | cons line lines ih =>
    by_cases hne : lines = []
    · rw [hne, punctuate, withoutComma_eq]
      simp
    · have hlength : 0 < lines.length := List.length_pos_iff.mpr hne
      rw [punctuate_cons line hne, ih, withComma_eq, List.mapIdx_cons]
      simp [hlength]

theorem mem_of_mem_ending {c : Char} {count : Nat} {line : Text} (h : c ∈ ending count line) :
    c ∈ line ∨ c = ',' := by
  rcases List.mem_append.mp h with h | h
  · exact .inl ((List.rdropWhile_prefix _ line).subset h)
  · exact .inr (List.eq_of_mem_replicate h)

theorem break_not_mem_of_mem_filledLines {line body : Text} (h : line ∈ filledLines body) :
    '\n' ∉ line := by
  obtain ⟨part, hpart, rfl⟩ := List.mem_map.mp (List.mem_filter.mp h).1
  exact fun hm => Text.not_mem_of_mem_splitOn hpart (Text.mem_of_mem_trim hm)

theorem break_not_mem_of_mem_punctuate {line body : Text} (h : line ∈ punctuate (filledLines body)) :
    '\n' ∉ line := by
  rw [punctuate_eq] at h
  obtain ⟨i, hi, rfl⟩ := List.mem_mapIdx.mp h
  intro hm
  rcases mem_of_mem_ending hm with hm | hm
  · exact break_not_mem_of_mem_filledLines (List.getElem_mem hi) hm
  · exact absurd hm (by decide)

-- The clause is the word SET and as many lines as the body has filled ones. They end as they should, the
-- last one with no comma and the others with one, exactly if no line of the body ends with two.
theorem splitOn_ofBody (body : Text) (h : filledLines body ≠ []) :
    let lines := filledLines body
    ((ofBody body).splitOn '\n' = "SET".toList :: lines.mapIdx fun i line =>
        ending (if i + 1 < lines.length then max 1 (commas line) else commas line - 1) line) ∧
      (((ofBody body).splitOn '\n' = "SET".toList :: lines.mapIdx fun i line =>
          ending (if i + 1 < lines.length then 1 else 0) line) ↔
        ∀ line ∈ lines, ¬[',', ','] <:+ line) := by
  intro lines
  have hbreak : ∀ line ∈ "SET".toList :: punctuate lines, '\n' ∉ line :=
    List.forall_mem_cons.mpr ⟨by decide, fun line hl => break_not_mem_of_mem_punctuate hl⟩
  have hjoin : ofBody body = ['\n'].intercalate ("SET".toList :: punctuate lines) := by
    rw [List.intercalate_cons_of_ne_nil (punctuate_ne_nil h)]
    rfl
  have hlines : (ofBody body).splitOn '\n' = "SET".toList :: punctuate lines := by
    rw [hjoin, List.splitOn_intercalate '\n' hbreak (List.cons_ne_nil _ _)]
  rw [hlines, punctuate_eq]
  refine ⟨rfl, ?_⟩
  rw [List.cons_inj_right, List.mapIdx_eq_mapIdx_iff, List.forall_mem_iff_forall_getElem]
  refine forall₂_congr fun i hi => ?_
  rw [ending_inj, ← commas_le_one_iff]
  split <;> omega

-- Blank lines, a line that is a comma, and blanks in front of the last comma.
theorem splitOn_ofBody_blanks :
    let body := " a = 1\r\n\n\tb = 2,\r\n,\n c = 3 ,".toList
    let lines := filledLines body
    lines ≠ [] ∧ ofBody body = "SET\na = 1,\nb = 2,\n,\nc = 3 ".toList ∧
      (ofBody body).splitOn '\n' = "SET".toList :: lines.mapIdx fun i line =>
        ending (if i + 1 < lines.length then 1 else 0) line := by
  intro body lines
  have hfilled : lines ≠ [] := by decide +kernel
  exact ⟨hfilled, by decide +kernel, (splitOn_ofBody body hfilled).2.mpr (by decide +kernel)⟩

-- A second comma stays where it is.
theorem splitOn_ofBody_repeated :
    let body := "a = 1,,\nb = 2".toList
    let lines := filledLines body
    lines = ["a = 1,,".toList, "b = 2".toList] ∧ ofBody body = "SET\na = 1,,\nb = 2".toList ∧
      (ofBody body).splitOn '\n' ≠ "SET".toList :: lines.mapIdx fun i line =>
        ending (if i + 1 < lines.length then 1 else 0) line := by
  decide +kernel

end SqlPreview.SetClause
