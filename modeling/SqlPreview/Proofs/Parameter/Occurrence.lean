import SqlPreview.Proofs.Parameter.Settled

namespace SqlPreview

-- A list with the first place of each of its members.
section FirstPlaces

variable {α : Type} [BEq α] [LawfulBEq α]

theorem eraseDups_filter (p : α → Bool) (xs : List α) :
    (xs.filter p).eraseDups = xs.eraseDups.filter p := by
  match xs with
  | [] => rfl
  | x :: xs =>
    have hshort : (xs.filter fun y => !y == x).length < (x :: xs).length :=
      Nat.lt_succ_of_le (List.length_filter_le _ _)
    have ih := eraseDups_filter p (xs.filter fun y => !y == x)
    rw [List.filter_comm] at ih
    rw [List.eraseDups_cons]
    by_cases hx : p x
    · rw [List.filter_cons_of_pos hx, List.filter_cons_of_pos hx, List.eraseDups_cons, ih]
    · -- what `p` lets through is never the member that is dropped
      have hsame : (xs.filter p).filter (fun y => !y == x) = xs.filter p := by
        refine List.filter_eq_self.mpr fun y hy => ?_
        have hne : y ≠ x := by
          rintro rfl
          exact hx (List.mem_filter.mp hy).2
        simp [hne]
      rw [List.filter_cons_of_neg hx, List.filter_cons_of_neg hx, ← ih, hsame]
termination_by xs.length
decreasing_by exact hshort

theorem eraseDups_eraseDups (xs : List α) : xs.eraseDups.eraseDups = xs.eraseDups := by
  match xs with
  | [] => rfl
  | x :: xs =>
    have hshort : (xs.filter fun y => !y == x).length < (x :: xs).length :=
      Nat.lt_succ_of_le (List.length_filter_le _ _)
    rw [List.eraseDups_cons, List.eraseDups_cons, ← eraseDups_filter, List.filter_filter]
    simp only [Bool.and_self]
    rw [eraseDups_eraseDups]
termination_by xs.length
decreasing_by exact hshort

theorem eraseDups_append_left (xs ys : List α) :
    (xs.eraseDups ++ ys).eraseDups = (xs ++ ys).eraseDups := by
  have hremoved : ys.removeAll xs.eraseDups = ys.removeAll xs := by
    refine List.filter_congr fun y _ => ?_
    rw [List.elem_eq_mem, List.elem_eq_mem]
    simp only [List.mem_eraseDups]
  rw [List.eraseDups_append, List.eraseDups_append, eraseDups_eraseDups, hremoved]

theorem eraseDups_append_right (xs ys : List α) :
    (xs ++ ys.eraseDups).eraseDups = (xs ++ ys).eraseDups := by
  rw [List.eraseDups_append, List.eraseDups_append, List.removeAll, List.removeAll, ← eraseDups_filter,
    eraseDups_eraseDups]

end FirstPlaces

namespace Placeholder

-- What is read in front of a sigil does not depend on what the sigil begins.
theorem read?_append_sigil {c : Char} (hc : Form.ofSigil? c ≠ none) {s : Text} (hs : s ≠ []) (t : Text) :
    read? (s ++ c :: t) = (read? s).map fun found => (found.1, found.2 ++ c :: t) := by
  cases hread : read? s with
  | some found => exact read?_append hread (c :: t)
  | none =>
    rw [Option.map_none, Option.eq_none_iff_forall_not_mem]
    rintro ⟨p, rest⟩ hp
    have hname := isName_of_read? hp
    rcases List.append_eq_append_iff.mp (append_of_read? hp) with ⟨inside, rfl, -⟩ | ⟨inside, htext, hrest⟩
    · cases hread.symm.trans (read?_toText_append hname inside)
    · -- the placeholder would go on behind the text, with the sigil
      cases inside with
      | nil =>
        have hwhole := read?_toText_append hname []
        rw [htext, List.append_nil, List.append_nil] at hwhole
        cases hread.symm.trans hwhole
      | cons d inside =>
        obtain ⟨rfl, -⟩ := List.cons_eq_cons.mp hrest
        obtain ⟨e, s, rfl⟩ := List.exists_cons_of_ne_nil hs
        exact hc (ofSigil?_of_mem_tail hname (by simp [htext]))

-- A sigil parts a text.
theorem scan_append_sigil {c : Char} (hc : Form.ofSigil? c ≠ none) (s t : Text) :
    mark.scan (s ++ c :: t) = mark.scan s ++ mark.scan (c :: t) :=
  Mark.scan_append leavesEnd_mark fun _ _ hne => read?_append_sigil hc hne t

section Place

variable {p : Placeholder} (hp : Name.isName p.name)
include hp

-- What stands around a placeholder is scanned by itself.
theorem scan_append_toText (a b : Text) :
    mark.scan (a ++ (p.toText ++ b)) = mark.scan a ++ .mark p :: mark.scan b := by
  have hsigil : Form.ofSigil? p.form.sigil ≠ none := by cases p.form <;> decide
  have hread : mark.read? (p.toText ++ b) = some (p, b) := read?_toText_append hp b
  have hparted : mark.scan (a ++ (p.toText ++ b)) = mark.scan a ++ mark.scan (p.toText ++ b) :=
    scan_append_sigil hsigil a ('\x7b' :: p.name ++ ['\x7d'] ++ b)
  rw [hparted, Mark.scan_of_read? mark hread]

theorem replace_append_toText (write : Placeholder → Text) (a b : Text) :
    mark.replace write (a ++ (p.toText ++ b)) =
      mark.replace write a ++ (write p ++ mark.replace write b) := by
  simp only [Mark.replace, scan_append_toText hp, List.flatMap_append, List.flatMap_cons, Piece.write]

theorem fillAll_append_toText (params : Params) (a b : Text) :
    fillAll params (a ++ (p.toText ++ b)) = fillAll params a ++ (fill params p ++ fillAll params b) :=
  replace_append_toText hp (fill params) a b

theorem names_append_toText (a b : Text) :
    names (a ++ (p.toText ++ b)) = (names a ++ p.name :: names b).eraseDups := by
  have hall : (mark.all (a ++ (p.toText ++ b))).map name =
      (mark.all a).map name ++ p.name :: (mark.all b).map name := by
    simp [Mark.all, scan_append_toText hp, Piece.mark?]
  calc
    names (a ++ (p.toText ++ b)) =
      (((mark.all a).map name ++ [p.name]) ++ (mark.all b).map name).eraseDups := by
        rw [names, hall, List.append_assoc, List.singleton_append]
    _ = ((mark.all a).map name ++ ([p.name] ++ names b)).eraseDups := by
        rw [← eraseDups_append_right, List.append_assoc, names]
    _ = (names a ++ p.name :: names b).eraseDups := by
        rw [← eraseDups_append_left, ← names, List.singleton_append]

-- A placeholder that stands alone.
theorem replace_toText (write : Placeholder → Text) : mark.replace write p.toText = write p := by
  have hplace := replace_append_toText hp write [] []
  simpa only [Mark.replace_nil, List.nil_append, List.append_nil] using hplace

theorem names_toText : names p.toText = [p.name] := by
  have hnone : names [] = [] := by
    rw [names, Mark.all_nil]
    rfl
  have hplace := names_append_toText hp [] []
  rw [hnone, List.nil_append, List.nil_append, List.append_nil] at hplace
  exact hplace

end Place

theorem mem_names {name t : Text} : name ∈ names t ↔ ∃ p ∈ mark.all t, p.name = name := by
  rw [names, List.mem_eraseDups, List.mem_map]

-- No placeholder occurs in the text.
def Absent (t : Text) : Prop :=
  ∀ p : Placeholder, Name.isName p.name → ¬p.toText <:+: t

theorem all_eq_nil_of_absent {t : Text} (h : Absent t) : mark.all t = [] := by
  refine List.eq_nil_iff_forall_not_mem.mpr fun p hp => ?_
  obtain ⟨s, rest, hs, hread⟩ := Mark.exists_read?_of_mem_all leavesEnd_mark hp
  refine h p (isName_of_read? hread) (List.IsInfix.trans ⟨[], rest, ?_⟩ hs.isInfix)
  rw [List.nil_append, append_of_read? hread]

theorem absent_of_all_eq_nil {t : Text} (h : mark.all t = []) : Absent t := by
  rintro p hp ⟨before, behind, rfl⟩
  have hsuffix : p.toText ++ behind <:+ before ++ p.toText ++ behind :=
    ⟨before, (List.append_assoc ..).symm⟩
  have hm := mem_all_of_suffix hsuffix (read?_toText_append hp behind)
  rw [h] at hm
  cases hm

theorem absent_nil : Absent [] := by
  intro p _ hin
  simp [toText] at hin

-- A character at which no placeholder begins makes none with the text behind it.
theorem Absent.cons {c : Char} {s t : Text} (hread : read? (c :: t) = none) (hs : s <+: t)
    (h : Absent s) : Absent (c :: s) := by
  intro p hp hin
  rcases List.infix_cons_iff.mp hin with hprefix | hin
  · obtain ⟨rest, htext⟩ := hprefix.trans (List.cons_prefix_cons.mpr ⟨rfl, hs⟩)
    rw [← htext, read?_toText_append hp] at hread
    cases hread
  · exact h p hp hin

-- A row of placeholders, each with the text in front of it, and the text behind the last one.
def assemble (write : Placeholder → Text) (parts : List (Text × Placeholder)) (last : Text) : Text :=
  parts.flatMap (fun part => part.1 ++ write part.2) ++ last

theorem assemble_cons (write : Placeholder → Text) (part : Text × Placeholder)
    (parts : List (Text × Placeholder)) (last : Text) :
    assemble write (part :: parts) last = part.1 ++ (write part.2 ++ assemble write parts last) := by
  simp only [assemble, List.flatMap_cons, List.append_assoc]

-- Every text is such a row, without any placeholder in the texts between.
theorem exists_assemble (t : Text) :
    ∃ parts last, t = assemble toText parts last ∧ Absent last ∧
      ∀ part ∈ parts, Absent part.1 ∧ Name.isName part.2.name := by
  induction t using Mark.scan_induction mark with
  | nil => exact ⟨[], [], rfl, absent_nil, by simp⟩
  | mark t p rest hread ih =>
    obtain ⟨parts, last, hrest, hlast, hparts⟩ := ih
    refine ⟨([], p) :: parts, last, ?_, hlast, ?_⟩
    · rw [assemble_cons, ← hrest, append_of_read? hread, List.nil_append]
    · exact List.forall_mem_cons.mpr ⟨⟨absent_nil, isName_of_read? hread⟩, hparts⟩
  | char c t hread ih =>
    obtain ⟨parts, last, htext, hlast, hparts⟩ := ih
    cases parts with
    | nil =>
      refine ⟨[], c :: last, congrArg (c :: ·) htext, hlast.cons hread ?_, by simp⟩
      exact htext ▸ List.prefix_refl _
    | cons part parts =>
      rw [List.forall_mem_cons] at hparts
      rw [assemble_cons] at htext
      refine ⟨(c :: part.1, part.2) :: parts, last, ?_, hlast, ?_⟩
      · rw [assemble_cons, htext, List.cons_append]
      · have hpart := hparts.1.1.cons hread (htext ▸ List.prefix_append _ _)
        exact List.forall_mem_cons.mpr ⟨⟨hpart, hparts.1.2⟩, hparts.2⟩

theorem replace_eq_self_of_absent {t : Text} (h : Absent t) (write : Placeholder → Text) :
    mark.replace write t = t :=
  Mark.replace_eq_self_of_all_eq_nil (all_eq_nil_of_absent h) write

-- Replacing in a row of placeholders replaces each of them, and nothing in the texts between.
theorem replace_assemble (write : Placeholder → Text) {parts : List (Text × Placeholder)} {last : Text}
    (hlast : Absent last) (hparts : ∀ part ∈ parts, Absent part.1 ∧ Name.isName part.2.name) :
    mark.replace write (assemble toText parts last) = assemble write parts last := by
  induction parts with
  | nil => exact replace_eq_self_of_absent hlast write
  | cons part parts ih =>
    obtain ⟨⟨hpart, hname⟩, hparts⟩ := List.forall_mem_cons.mp hparts
    rw [assemble_cons, replace_append_toText hname, replace_eq_self_of_absent hpart, ih hparts,
      assemble_cons]

theorem fillAll_assemble (params : Params) {parts : List (Text × Placeholder)} {last : Text}
    (hlast : Absent last) (hparts : ∀ part ∈ parts, Absent part.1 ∧ Name.isName part.2.name) :
    fillAll params (assemble toText parts last) = assemble (fill params) parts last :=
  replace_assemble (fill params) hlast hparts

-- Placeholders are filled each by itself. What a placeholder leaves depends on its value only, the
-- texts on both sides are filled as they would be alone, and where none occurs nothing changes. So a
-- text is a row of placeholders with texts between, and of these only the placeholders are replaced.
theorem fillAll_apart (params : Params) :
    (∀ (form : Form) (name a b : Text), Name.isName name →
      fillAll params (a ++ (toText ⟨form, name⟩ ++ b)) =
          fillAll params a ++
            (((params.get? name).filter fun value => !value.isBlank).elim []
              (fun value => form.write value.toText) ++ fillAll params b) ∧
        names (a ++ (toText ⟨form, name⟩ ++ b)) = (names a ++ name :: names b).eraseDups) ∧
      (∀ t, Absent t → fillAll params t = t ∧ names t = []) ∧
      ∀ t, ∃ parts last, (∀ part ∈ parts, Absent part.1 ∧ Name.isName part.2.name) ∧ Absent last ∧
        t = assemble toText parts last ∧ fillAll params t = assemble (fill params) parts last := by
  refine ⟨fun form name a b hname => ?_, fun t habsent => ?_, fun t => ?_⟩
  · have hfill : fill params ⟨form, name⟩ =
        ((params.get? name).filter fun value => !value.isBlank).elim []
          fun value => form.write value.toText := by
      rw [fill]
      cases params.get? name with
      | none => rfl
      | some value => cases hblank : value.isBlank <;> simp [Option.filter, hblank]
    rw [fillAll_append_toText hname, hfill]
    exact ⟨rfl, names_append_toText hname a b⟩
  · have hall := all_eq_nil_of_absent habsent
    exact ⟨Mark.replace_eq_self_of_all_eq_nil hall _, by rw [names, hall]; rfl⟩
  · obtain ⟨parts, last, rfl, hlast, hparts⟩ := exists_assemble t
    exact ⟨parts, last, hparts, hlast, rfl, fillAll_assemble params hlast hparts⟩

-- The texts on both sides begin and end like placeholders, and the value looks like one.
theorem fillAll_apart_unfinished :
    let params : Params := [("a.b".toList, .text "#\x7bc\x7d".toList), ("c".toList, .text "1".toList)]
    let before := "#\x7bc.$\x7bc\x7d #".toList
    let behind := ".d\x7d\x7bc\x7d$\x7bgone\x7d".toList
    Name.isName "a.b".toList ∧
      fillAll params (before ++ (toText ⟨.quoted, "a.b".toList⟩ ++ behind)) =
        "#\x7bc.1 #'#\x7bc\x7d'.d\x7d\x7bc\x7d".toList ∧
      names (before ++ (toText ⟨.quoted, "a.b".toList⟩ ++ behind)) =
        ["c".toList, "a.b".toList, "gone".toList] := by
  intro params before behind
  have hname : Name.isName "a.b".toList := by decide +kernel
  obtain ⟨hfilled, hnames⟩ := (fillAll_apart params).1 .quoted "a.b".toList before behind hname
  exact ⟨hname, hfilled.trans (by decide +kernel), hnames.trans (by decide +kernel)⟩

end Placeholder

end SqlPreview
