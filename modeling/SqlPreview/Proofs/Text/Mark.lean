import Mathlib.Data.List.Basic
import SqlPreview.Text.Mark

namespace SqlPreview

namespace Piece

variable {α : Type} {pieces : List (Piece α)} {write write' : α → Text}

theorem flatMap_write_congr (h : ∀ a, .mark a ∈ pieces → write a = write' a) :
    pieces.flatMap (Piece.write write) = pieces.flatMap (Piece.write write') := by
  refine List.flatMap_congr fun piece hp => ?_
  cases piece with
  | char c => rfl
  | mark a => exact h a hp

variable {c : Char}

theorem count_flatMap_write_le (h : ∀ a, .mark a ∈ pieces → (write a).count c ≤ (write' a).count c) :
    (pieces.flatMap (Piece.write write)).count c ≤ (pieces.flatMap (Piece.write write')).count c := by
  induction pieces with
  | nil => simp
  | cons piece pieces ih =>
    have hrest := ih fun a ha => h a (List.mem_cons_of_mem _ ha)
    rw [List.flatMap_cons, List.flatMap_cons, List.count_append, List.count_append]
    cases piece with
    | char d => exact Nat.add_le_add_left hrest _
    | mark a => exact Nat.add_le_add (h a List.mem_cons_self) hrest

-- One mark with more copies of a character is enough for more copies in all.
theorem count_flatMap_write_lt (h : ∀ a, .mark a ∈ pieces → (write a).count c ≤ (write' a).count c)
    {a : α} (ha : .mark a ∈ pieces) (hlt : (write a).count c < (write' a).count c) :
    (pieces.flatMap (Piece.write write)).count c < (pieces.flatMap (Piece.write write')).count c := by
  obtain ⟨before, after, rfl⟩ := List.append_of_mem ha
  have hbefore : (before.flatMap (Piece.write write)).count c ≤
      (before.flatMap (Piece.write write')).count c :=
    count_flatMap_write_le fun b hb => h b (List.mem_append_left _ hb)
  have hafter : (after.flatMap (Piece.write write)).count c ≤
      (after.flatMap (Piece.write write')).count c :=
    count_flatMap_write_le fun b hb => h b (List.mem_append_right _ (List.mem_cons_of_mem _ hb))
  simp only [List.flatMap_append, List.flatMap_cons, List.count_append, Piece.write]
  omega

end Piece

namespace Mark

variable {α : Type} {m : Mark α}

-- What a mark leaves is the end of the text that it is read off.
def LeavesEnd (m : Mark α) : Prop :=
  ∀ {t a rest}, m.read? t = some (a, rest) → rest <:+ t

-- A text is empty, or begins with a mark, or begins with a character that belongs to none.
@[elab_as_elim]
theorem scan_induction (m : Mark α) {motive : Text → Prop} (nil : motive [])
    (mark : ∀ t a rest, m.read? t = some (a, rest) → motive rest → motive t)
    (char : ∀ c t, m.read? (c :: t) = none → motive t → motive (c :: t)) (t : Text) : motive t :=
  scan.induct m motive nil (fun _ _ a rest h => mark _ a rest h) char t

@[simp]
theorem all_nil (m : Mark α) : m.all [] = [] := by
  simp [all, scan_nil]

theorem all_of_read? {t rest : Text} {a : α} (h : m.read? t = some (a, rest)) :
    m.all t = a :: m.all rest := by
  simp [all, scan_of_read? m h, Piece.mark?]

theorem all_cons {c : Char} {t : Text} (h : m.read? (c :: t) = none) : m.all (c :: t) = m.all t := by
  rw [all, scan_cons m h, List.filterMap_cons_none rfl, all]

@[simp]
theorem replace_nil (m : Mark α) (write : α → Text) : m.replace write [] = [] := by
  simp [replace, scan_nil]

theorem replace_of_read? {t rest : Text} {a : α} (write : α → Text)
    (h : m.read? t = some (a, rest)) : m.replace write t = write a ++ m.replace write rest := by
  simp [replace, scan_of_read? m h, Piece.write]

theorem replace_cons {c : Char} {t : Text} (write : α → Text) (h : m.read? (c :: t) = none) :
    m.replace write (c :: t) = c :: m.replace write t := by
  simp [replace, scan_cons m h, Piece.write]

-- Marks that are written as they were read leave the text as it is.
theorem replace_eq_self {write : α → Text}
    (h : ∀ {t a rest}, m.read? t = some (a, rest) → write a ++ rest = t) (t : Text) :
    m.replace write t = t := by
  induction t using scan_induction m with
  | nil => exact replace_nil m write
  | mark t a rest hr ih => rw [replace_of_read? write hr, ih, h hr]
  | char c t hr ih => rw [replace_cons write hr, ih]

theorem replace_congr {write write' : α → Text} {t : Text}
    (h : ∀ a ∈ m.all t, write a = write' a) : m.replace write t = m.replace write' t := by
  induction t using scan_induction m with
  | nil => simp
  | mark t a rest hr ih =>
    rw [all_of_read? hr] at h
    rw [replace_of_read? write hr, replace_of_read? write' hr, h a (by simp),
      ih fun b hb => h b (List.mem_cons_of_mem _ hb)]
  | char c t hr ih =>
    rw [all_cons hr] at h
    rw [replace_cons write hr, replace_cons write' hr, ih h]

-- A character of a replacement stands in the text or is written for one of its marks.
theorem mem_of_mem_replace (hm : m.LeavesEnd) {write : α → Text} {t : Text} {c : Char}
    (h : c ∈ m.replace write t) : c ∈ t ∨ ∃ a ∈ m.all t, c ∈ write a := by
  induction t using scan_induction m with
  | nil => simp at h
  | mark t a rest hr ih =>
    rw [replace_of_read? write hr, List.mem_append] at h
    rw [all_of_read? hr]
    rcases h with h | h
    · exact .inr ⟨a, by simp, h⟩
    · rcases ih h with h | ⟨b, hb, h⟩
      · exact .inl ((hm hr).subset h)
      · exact .inr ⟨b, List.mem_cons_of_mem _ hb, h⟩
  | char d t hr ih =>
    rw [replace_cons write hr, List.mem_cons] at h
    rw [all_cons hr]
    rcases h with rfl | h
    · exact .inl (by simp)
    · rcases ih h with h | h
      · exact .inl (List.mem_cons_of_mem _ h)
      · exact .inr h

theorem mem_replace_of_mem {write : α → Text} {t : Text} {a : α} {c : Char} (ha : a ∈ m.all t)
    (hc : c ∈ write a) : c ∈ m.replace write t := by
  obtain ⟨piece, hp, hmark⟩ := List.mem_filterMap.mp ha
  refine List.mem_flatMap.mpr ⟨piece, hp, ?_⟩
  cases piece with
  | char d => cases hmark
  | mark b =>
    cases hmark
    exact hc

-- Every mark of a text is read off one of its ends.
theorem exists_read?_of_mem_all (hm : m.LeavesEnd) {t : Text} {a : α} (h : a ∈ m.all t) :
    ∃ s rest, s <:+ t ∧ m.read? s = some (a, rest) := by
  induction t using scan_induction m with
  | nil => simp at h
  | mark t b rest hr ih =>
    rw [all_of_read? hr, List.mem_cons] at h
    rcases h with rfl | h
    · exact ⟨_, rest, List.suffix_refl _, hr⟩
    · obtain ⟨s, rest', hs, hr'⟩ := ih h
      exact ⟨s, rest', hs.trans (hm hr), hr'⟩
  | char c t hr ih =>
    rw [all_cons hr] at h
    obtain ⟨s, rest', hs, hr'⟩ := ih h
    exact ⟨s, rest', hs.trans (List.suffix_cons c t), hr'⟩

-- Where a mark can be read off some end of a text, scanning finds one.
theorem all_ne_nil_of_suffix {s t : Text} {found : α × Text} (hs : s <:+ t)
    (hr : m.read? s = some found) : m.all t ≠ [] := by
  induction t using scan_induction m with
  | nil =>
    rw [List.suffix_nil.mp hs] at hr
    exact absurd (m.length_lt hr) (by simp)
  | mark t a rest hr' ih =>
    rw [all_of_read? hr']
    exact List.cons_ne_nil _ _
  | char c t hc ih =>
    rw [all_cons hc]
    rcases List.suffix_cons_iff.mp hs with rfl | hs
    · cases hr.symm.trans hc
    · exact ih hs

theorem all_eq_nil_iff (hm : m.LeavesEnd) {t : Text} :
    m.all t = [] ↔ ∀ s, s <:+ t → m.read? s = none := by
  constructor
  · intro h s hs
    cases hr : m.read? s with
    | none => rfl
    | some found => exact absurd h (all_ne_nil_of_suffix hs hr)
  · intro h
    refine List.eq_nil_iff_forall_not_mem.mpr fun a ha => ?_
    obtain ⟨s, rest, hs, hr⟩ := exists_read?_of_mem_all hm ha
    cases (h s hs).symm.trans hr

-- A stretch in which no mark begins is passed over character by character.
theorem scan_append_of_no_mark {s rest : Text}
    (h : ∀ c t, c :: t <:+ s → m.read? (c :: (t ++ rest)) = none) :
    m.scan (s ++ rest) = s.map .char ++ m.scan rest := by
  induction s with
  | nil => rfl
  | cons c s ih =>
    rw [List.cons_append, scan_cons m (h c s (List.suffix_refl _)), List.map_cons, List.cons_append,
      ih fun d t hs => h d t (hs.trans (List.suffix_cons c s))]

theorem all_append_of_no_mark {s rest : Text}
    (h : ∀ c t, c :: t <:+ s → m.read? (c :: (t ++ rest)) = none) : m.all (s ++ rest) = m.all rest := by
  rw [all, scan_append_of_no_mark h, List.filterMap_append, List.filterMap_map, all]
  simp [Function.comp_def, Piece.mark?]

theorem replace_append_of_no_mark (write : α → Text) {s rest : Text}
    (h : ∀ c t, c :: t <:+ s → m.read? (c :: (t ++ rest)) = none) :
    m.replace write (s ++ rest) = s ++ m.replace write rest := by
  rw [replace, scan_append_of_no_mark h, List.flatMap_append, List.flatMap_map, replace]
  simp [Piece.write]

-- Where reading in one part of a text does not depend on the part behind, both are scanned apart.
theorem scan_append (hm : m.LeavesEnd) {s rest : Text}
    (h : ∀ u, u <:+ s → u ≠ [] →
      m.read? (u ++ rest) = (m.read? u).map fun found => (found.1, found.2 ++ rest)) :
    m.scan (s ++ rest) = m.scan s ++ m.scan rest := by
  induction s using scan_induction m with
  | nil => simp [scan_nil]
  | mark t a behind hr ih =>
    have hne : t ≠ [] := by
      rintro rfl
      exact absurd (m.length_lt hr) (by simp)
    have hread := h t (List.suffix_refl t) hne
    rw [hr, Option.map_some] at hread
    rw [scan_of_read? m hread, scan_of_read? m hr, ih fun u hu => h u (hu.trans (hm hr)),
      List.cons_append]
  | char c t hr ih =>
    have hread := h (c :: t) (List.suffix_refl _) (by simp)
    rw [hr, Option.map_none, List.cons_append] at hread
    rw [List.cons_append, scan_cons m hread, scan_cons m hr,
      ih fun u hu => h u (hu.trans (List.suffix_cons c t)), List.cons_append]

theorem all_append (hm : m.LeavesEnd) {s rest : Text}
    (h : ∀ u, u <:+ s → u ≠ [] →
      m.read? (u ++ rest) = (m.read? u).map fun found => (found.1, found.2 ++ rest)) :
    m.all (s ++ rest) = m.all s ++ m.all rest := by
  rw [all, scan_append hm h, List.filterMap_append, all, all]

theorem replace_eq_self_of_all_eq_nil {t : Text} (h : m.all t = []) (write : α → Text) :
    m.replace write t = t := by
  induction t using scan_induction m with
  | nil => exact replace_nil m write
  | mark t a rest hr ih =>
    rw [all_of_read? hr] at h
    cases h
  | char c t hr ih =>
    rw [all_cons hr] at h
    rw [replace_cons write hr, ih h]

section OfRest

variable {rest? : Text → Option Text} {hlt : ∀ {t rest}, rest? t = some rest → rest.length < t.length}

theorem read?_ofRest (t : Text) :
    (ofRest rest? hlt).read? t = (rest? t).map fun rest => ((), rest) :=
  rfl

theorem leavesEnd_ofRest (h : ∀ {t rest}, rest? t = some rest → rest <:+ t) :
    (ofRest rest? hlt).LeavesEnd := by
  intro t a rest hr
  rw [read?_ofRest, Option.map_eq_some_iff] at hr
  obtain ⟨behind, hb, heq⟩ := hr
  cases heq
  exact h hb

theorem all_ofRest_eq_nil_iff (h : ∀ {t rest}, rest? t = some rest → rest <:+ t) {t : Text} :
    (ofRest rest? hlt).all t = [] ↔ ∀ s, s <:+ t → rest? s = none := by
  rw [all_eq_nil_iff (leavesEnd_ofRest h)]
  simp only [read?_ofRest, Option.map_eq_none_iff]

-- Induction over a text whose marks are given by what follows them.
@[elab_as_elim]
theorem ofRest_induction (hlt : ∀ {t rest}, rest? t = some rest → rest.length < t.length)
    {motive : Text → Prop} (nil : motive [])
    (mark : ∀ t rest, rest? t = some rest → motive rest → motive t)
    (char : ∀ c t, rest? (c :: t) = none → motive t → motive (c :: t)) (t : Text) : motive t := by
  induction t using scan_induction (ofRest rest? hlt) with
  | nil => exact nil
  | mark t _ rest hr ih =>
    rw [read?_ofRest, Option.map_eq_some_iff] at hr
    obtain ⟨_, hrest, ⟨⟩⟩ := hr
    exact mark t rest hrest ih
  | char c t hr ih =>
    rw [read?_ofRest, Option.map_eq_none_iff] at hr
    exact char c t hr ih

theorem replace_ofRest_of_some {t rest : Text} (h : rest? t = some rest) (write : Unit → Text) :
    (ofRest rest? hlt).replace write t = write () ++ (ofRest rest? hlt).replace write rest :=
  replace_of_read? write (by rw [read?_ofRest, h, Option.map_some])

theorem replace_ofRest_of_none {c : Char} {t : Text} (h : rest? (c :: t) = none)
    (write : Unit → Text) :
    (ofRest rest? hlt).replace write (c :: t) = c :: (ofRest rest? hlt).replace write t :=
  replace_cons write (by rw [read?_ofRest, h, Option.map_none])

-- A change of characters that reading does not notice, and that leaves alone what is written for a mark,
-- may be made before or after.
theorem replace_ofRest_map {f : Char → Char} {write : Unit → Text}
    (hread : ∀ t, rest? (t.map f) = (rest? t).map (List.map f)) (hwrite : (write ()).map f = write ())
    (t : Text) : (ofRest rest? hlt).replace write (t.map f) = ((ofRest rest? hlt).replace write t).map f := by
  induction t using ofRest_induction hlt with
  | nil => rw [List.map_nil, replace_nil, List.map_nil]
  | mark t rest hr ih =>
    have hmapped : rest? (t.map f) = some (rest.map f) := by rw [hread, hr, Option.map_some]
    rw [replace_ofRest_of_some hmapped, replace_ofRest_of_some hr, List.map_append, hwrite, ih]
  | char c t hr ih =>
    have hmapped : rest? (f c :: t.map f) = none := by
      rw [← List.map_cons, hread, hr, Option.map_none]
    rw [List.map_cons, replace_ofRest_of_none hmapped, replace_ofRest_of_none hr, List.map_cons, ih]

theorem all_ofRest_of_some {t rest : Text} (h : rest? t = some rest) :
    (ofRest rest? hlt).all t = () :: (ofRest rest? hlt).all rest :=
  all_of_read? (by rw [read?_ofRest, h, Option.map_some])

theorem all_ofRest_of_none {c : Char} {t : Text} (h : rest? (c :: t) = none) :
    (ofRest rest? hlt).all (c :: t) = (ofRest rest? hlt).all t :=
  all_cons (by rw [read?_ofRest, h, Option.map_none])

-- A text from which marks that are written shorter than they were read leave nothing away has no marks.
theorem replace_ofRest_eq_self_iff {write : Unit → Text}
    (hshort : ∀ {t rest}, rest? t = some rest → (write ()).length + rest.length < t.length)
    {t : Text} : (ofRest rest? hlt).replace write t = t ↔ (ofRest rest? hlt).all t = [] := by
  have hle : ∀ t, ((ofRest rest? hlt).replace write t).length ≤ t.length := by
    intro t
    induction t using ofRest_induction hlt with
    | nil => simp [replace_nil]
    | mark t rest hr ih =>
      have := hshort hr
      rw [replace_ofRest_of_some hr, List.length_append]
      omega
    | char c t hr ih =>
      rw [replace_ofRest_of_none hr, List.length_cons, List.length_cons]
      omega
  refine ⟨fun h => ?_, fun h => replace_eq_self_of_all_eq_nil h write⟩
  induction t using ofRest_induction hlt with
  | nil => exact all_nil _
  | mark t rest hr ih =>
    have hlength := congrArg List.length h
    rw [replace_ofRest_of_some hr, List.length_append] at hlength
    have := hshort hr
    have := hle rest
    omega
  | char c t hr ih =>
    rw [replace_ofRest_of_none hr] at h
    rw [all_ofRest_of_none hr]
    exact ih (List.cons.inj h).2

-- A character at which no mark begins, and in front of which every mark is read alike whatever follows,
-- stays where it is and parts the text.
theorem replace_append_cons (h : ∀ {t rest}, rest? t = some rest → rest <:+ t) (write : Unit → Text)
    {s t : Text} {c : Char} (hc : rest? (c :: t) = none)
    (hs : ∀ u, u <:+ s → rest? (u ++ c :: t) = (rest? u).map (· ++ c :: t)) :
    (ofRest rest? hlt).replace write (s ++ c :: t) =
      (ofRest rest? hlt).replace write s ++ c :: (ofRest rest? hlt).replace write t := by
  have hscan : (ofRest rest? hlt).scan (s ++ c :: t) =
      (ofRest rest? hlt).scan s ++ (ofRest rest? hlt).scan (c :: t) := by
    refine scan_append (leavesEnd_ofRest h) fun u hu _ => ?_
    rw [read?_ofRest, read?_ofRest, hs u hu, Option.map_map, Option.map_map]
    rfl
  have hread : (ofRest rest? hlt).read? (c :: t) = none := by
    rw [read?_ofRest, hc, Option.map_none]
  rw [replace, hscan, scan_cons _ hread, List.flatMap_append, List.flatMap_cons]
  rfl

end OfRest

end Mark

end SqlPreview
