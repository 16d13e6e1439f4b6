import SqlPreview.Proofs.Text.Basic

namespace SqlPreview.Text

-- The characters before which a text may be cut.
def isCut (c : Char) : Bool :=
  isBlank c || c == ','

theorem isCut_of_isBlank {c : Char} (h : isBlank c) : isCut c := by
  simp [isCut, h]

-- A property of texts that each end of a text has too, and each front that ends where a text may be cut.
structure CutClosed (P : Text → Prop) : Prop where
  suffix : ∀ {s t}, P t → s <:+ t → P s
  front : ∀ {s t}, P (s ++ t) → (∀ d ∈ t.head?, isCut d) → P s

-- Not to hold a character is such a property.
theorem cutClosed_not_mem (c : Char) : CutClosed fun t => c ∉ t :=
  ⟨fun h hs hc => h (hs.subset hc), fun h _ hc => h (List.mem_append_left _ hc)⟩

-- What trimming takes off the end is blank.
theorem exists_trimEnd_append (t : Text) :
    ∃ tail, trimEnd t ++ tail = t ∧ ∀ c ∈ tail, isBlank c := by
  refine ⟨(t.reverse.takeWhile isBlank).reverse, ?_, fun c hc => ?_⟩
  · rw [trimEnd, ← List.reverse_append, List.takeWhile_append_dropWhile, List.reverse_reverse]
  · exact List.all_eq_true.mp List.all_takeWhile c (List.mem_reverse.mp hc)

-- A member of a row stands in the joined row, and the separator stands behind it or nothing.
theorem exists_append_of_mem_intercalate {part : Text} {parts : List Text} (separator : Char)
    (h : part ∈ parts) :
    ∃ before after, [separator].intercalate parts = before ++ (part ++ after) ∧
      ∀ d ∈ after.head?, d = separator := by
  induction parts with
  | nil => cases h
  | cons first parts ih =>
    cases parts with
    | nil =>
      rw [List.mem_singleton.mp h]
      exact ⟨[], [], by simp, by simp⟩
    | cons next parts =>
      rw [List.intercalate_cons_cons]
      rcases List.mem_cons.mp h with rfl | h
      · exact ⟨[], separator :: [separator].intercalate (next :: parts), by simp, by simp⟩
      · obtain ⟨before, after, heq, hafter⟩ := ih h
        exact ⟨first ++ [separator] ++ before, after, by rw [heq]; simp, hafter⟩

namespace CutClosed

variable {P : Text → Prop} (hP : CutClosed P)
include hP

theorem trim {t : Text} (h : P t) : P (trim t) := by
  obtain ⟨tail, htail, hblank⟩ := exists_trimEnd_append (trimStart t)
  have hstart : P (trimStart t) := hP.suffix h (List.dropWhile_suffix _)
  rw [← htail] at hstart
  refine hP.front hstart fun d hd => isCut_of_isBlank (hblank d ?_)
  exact List.mem_of_mem_head? hd

theorem of_intercalate {separator : Char} (hcut : isCut separator) {part : Text} {parts : List Text}
    (h : P ([separator].intercalate parts)) (hm : part ∈ parts) : P part := by
  obtain ⟨before, after, heq, hafter⟩ := exists_append_of_mem_intercalate separator hm
  rw [heq] at h
  exact hP.front (hP.suffix h (List.suffix_append _ _)) fun d hd => hafter d hd ▸ hcut

theorem of_splitOn {separator : Char} (hcut : isCut separator) {part t : Text} (h : P t)
    (hm : part ∈ t.splitOn separator) : P part := by
  have hjoin : [separator].intercalate (t.splitOn separator) = t := List.intercalate_splitOn separator
  exact hP.of_intercalate hcut (hjoin.symm ▸ h) hm

end CutClosed

end SqlPreview.Text
