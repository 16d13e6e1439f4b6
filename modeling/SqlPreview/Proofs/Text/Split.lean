import SqlPreview.Proofs.Text.Cut

namespace SqlPreview.Text

variable {lead t tail : Text}

theorem exists_trim_append (t : Text) :
    ∃ lead tail, lead ++ (trim t ++ tail) = t ∧ allBlank lead ∧ allBlank tail := by
  obtain ⟨tail, htail, hblank⟩ := exists_trimEnd_append (trimStart t)
  refine ⟨t.takeWhile isBlank, tail, ?_, List.all_takeWhile, allBlank_iff.mpr hblank⟩
  rw [trim, htail, trimStart, List.takeWhile_append_dropWhile]

theorem trim_append_left (h : allBlank lead) (t : Text) : trim (lead ++ t) = trim t := by
  rw [trim, trimStart, List.dropWhile_append_of_pos (allBlank_iff.mp h), trim, trimStart]

theorem trimEnd_append_right (h : allBlank tail) (t : Text) : trimEnd (t ++ tail) = trimEnd t := by
  have hreverse : ∀ c ∈ tail.reverse, isBlank c := fun c hc =>
    allBlank_iff.mp h c (List.mem_reverse.mp hc)
  rw [trimEnd, List.reverse_append, List.dropWhile_append_of_pos hreverse, trimEnd]

theorem trim_append_right (t : Text) (h : allBlank tail) : trim (t ++ tail) = trim t := by
  rw [trim, trimStart, List.dropWhile_append]
  split
  · next hempty =>
    rw [dropWhile_eq_nil_iff.mpr h, trim, trimStart, List.isEmpty_iff.mp hempty]
  · rw [trimEnd_append_right h, trim, trimStart]

@[simp]
theorem trim_trim (t : Text) : trim (trim t) = trim t := by
  obtain ⟨lead, tail, heq, hlead, htail⟩ := exists_trim_append t
  have htrim := congrArg trim heq
  rwa [trim_append_left hlead, trim_append_right _ htail] at htrim

-- Trimming leaves a text as it is if there is no blank at either end.
theorem trim_eq_self_iff {t : Text} :
    trim t = t ↔ (∀ c ∈ t.head?, isBlank c = false) ∧ ∀ c ∈ t.getLast?, isBlank c = false := by
  constructor
  · intro h
    refine ⟨fun c hc => ?_, fun c hc => ?_⟩ <;> rw [Bool.eq_false_iff] <;> intro hb
    · obtain ⟨u, rfl⟩ := List.head?_eq_some_iff.mp hc
      have hlead : allBlank [c] := by simp [allBlank, hb]
      have hrest : trim (c :: u) = trim u := trim_append_left hlead u
      have hlength := (isInfix_trim u).length_le
      rw [← hrest, h, List.length_cons] at hlength
      omega
    · obtain ⟨u, rfl⟩ := List.getLast?_eq_some_iff.mp hc
      have hrest : trim (u ++ [c]) = trim u := trim_append_right u (by simp [allBlank, hb])
      have hlength := (isInfix_trim u).length_le
      rw [← hrest, h, List.length_append, List.length_singleton] at hlength
      omega
  · rintro ⟨hfirst, hlast⟩
    have hstart : trimStart t = t := by
      cases t with
      | nil => rfl
      | cons c t => exact List.dropWhile_cons_of_neg (by simp [hfirst c rfl])
    have hend : t.reverse.dropWhile isBlank = t.reverse := by
      cases hr : t.reverse with
      | nil => rfl
      | cons c u =>
        have hc := hlast c (by rw [List.getLast?_eq_head?_reverse, hr]; rfl)
        exact List.dropWhile_cons_of_neg (by simp [hc])
    rw [trim, hstart, trimEnd, hend, List.reverse_reverse]

section SplitOn

variable {α : Type} [BEq α] [LawfulBEq α] {separator : α}

theorem not_mem_of_mem_splitOn {part t : List α} (h : part ∈ t.splitOn separator) :
    separator ∉ part := by
  induction t generalizing part with
  | nil =>
    rw [List.splitOn_eq_singleton List.not_mem_nil, List.mem_singleton] at h
    rw [h]
    exact List.not_mem_nil
  | cons c t ih =>
    rw [List.splitOn_cons_eq_if_modifyHead] at h
    split at h
    · rcases List.mem_cons.mp h with rfl | h
      · exact List.not_mem_nil
      · exact ih h
    · next hc =>
      obtain ⟨first, rest, ht⟩ := List.exists_cons_of_ne_nil (List.splitOn_ne_nil separator t)
      rw [ht] at h ih
      rcases List.mem_cons.mp h with rfl | h
      · rw [List.mem_cons, not_or]
        exact ⟨fun heq => hc (by simp [heq]), ih List.mem_cons_self⟩
      · exact ih (List.mem_cons_of_mem first h)

-- What stands behind the last separator becomes part of the last part.
theorem exists_splitOn_append_right (t : List α) {tail : List α} (h : separator ∉ tail) :
    ∃ before last, t.splitOn separator = before ++ [last] ∧
      (t ++ tail).splitOn separator = before ++ [last ++ tail] := by
  induction t with
  | nil => exact ⟨[], [], rfl, List.splitOn_eq_singleton h⟩
  | cons c t ih =>
    obtain ⟨before, last, ht, htail⟩ := ih
    rw [List.cons_append, List.splitOn_cons_eq_if_modifyHead, List.splitOn_cons_eq_if_modifyHead,
      ht, htail]
    split
    · exact ⟨[] :: before, last, rfl, rfl⟩
    · cases before with
      | nil => exact ⟨[], c :: last, rfl, rfl⟩
      | cons first before => exact ⟨(c :: first) :: before, last, rfl, rfl⟩

theorem exists_splitOn_append_left {lead : List α} (h : separator ∉ lead) (t : List α) :
    ∃ first rest, t.splitOn separator = first :: rest ∧
      (lead ++ t).splitOn separator = (lead ++ first) :: rest := by
  induction lead with
  | nil =>
    obtain ⟨first, rest, ht⟩ := List.exists_cons_of_ne_nil (List.splitOn_ne_nil separator t)
    exact ⟨first, rest, ht, ht⟩
  | cons c lead ih =>
    rw [List.mem_cons, not_or] at h
    obtain ⟨first, rest, ht, hlead⟩ := ih h.2
    refine ⟨first, rest, ht, ?_⟩
    rw [List.cons_append, List.splitOn_cons_eq_if_modifyHead, hlead, if_neg (by simpa using Ne.symm h.1)]
    rfl

end SplitOn

section Separator

variable {separator : Char}

theorem not_mem_of_allBlank (hs : isBlank separator = false) (h : allBlank t) : separator ∉ t := by
  intro hm
  rw [allBlank_iff.mp h separator hm] at hs
  cases hs

-- Trimmed parts are the same whether or not the whole has been trimmed.
theorem map_trim_splitOn_trim (hs : isBlank separator = false) (t : Text) :
    ((trim t).splitOn separator).map trim = (t.splitOn separator).map trim := by
  obtain ⟨lead, tail, heq, hlead, htail⟩ := exists_trim_append t
  obtain ⟨before, last, hcore, hright⟩ :=
    exists_splitOn_append_right (trim t) (not_mem_of_allBlank hs htail)
  obtain ⟨first, rest, hbody, hleft⟩ :=
    exists_splitOn_append_left (not_mem_of_allBlank hs hlead) (trim t ++ tail)
  rw [heq] at hleft
  have hfront : (t.splitOn separator).map trim = ((trim t ++ tail).splitOn separator).map trim := by
    rw [hleft, hbody, List.map_cons, trim_append_left hlead, List.map_cons]
  rw [hfront, hcore, hright, List.map_append, List.map_append, List.map_singleton,
    List.map_singleton, trim_append_right _ htail]

end Separator

end SqlPreview.Text
