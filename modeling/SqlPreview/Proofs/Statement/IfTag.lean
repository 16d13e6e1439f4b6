import Mathlib.Data.List.Infix
import Mathlib.Data.List.TakeWhile
import SqlPreview.Proofs.Text.Mark
import SqlPreview.Proofs.Text.Basic
import SqlPreview.Statement.Tidy

namespace SqlPreview

namespace Text

theorem after?_append_cons {lead t : Text} {c : Char} (hc : c ∉ lead) (u : Text) :
    after? lead (t ++ c :: u) = (after? lead t).map (· ++ c :: u) := by
  induction lead generalizing t with
  | nil => rfl
  | cons l lead ih =>
    rw [List.mem_cons, not_or] at hc
    cases t with
    | nil => simp [after?, hc.1]
    | cons d t =>
      by_cases hd : d = l
      · simp [after?, hd, ih hc.2]
      · simp [after?, hd]

theorem tail?_dropWhile_eq_some_iff {c : Char} {t rest : Text} :
    (t.dropWhile (· != c)).tail? = some rest ↔ ∃ front, t = front ++ c :: rest ∧ c ∉ front := by
  constructor
  · intro h
    have hsplit := List.takeWhile_append_dropWhile (p := (· != c)) (l := t)
    have hhead := List.head?_dropWhile_not (· != c) t
    have hfront : c ∉ t.takeWhile (· != c) := fun hm => by simpa using List.mem_takeWhile_imp hm
    cases hd : t.dropWhile (· != c) with
    | nil =>
      rw [hd] at h
      cases h
    | cons d u =>
      rw [hd] at h hhead hsplit
      cases h
      rw [show d = c by simpa using hhead] at hsplit
      exact ⟨_, hsplit.symm, hfront⟩
  · rintro ⟨front, rfl, hfront⟩
    rw [List.dropWhile_append_of_pos fun d hd => ne_of_not_mem hfront hd,
      List.dropWhile_cons_of_neg (by simp)]
    rfl

end Text

namespace Statement

-- A slash in front is part of a closing tag.
def withoutSlash : Text → Text
  | '/' :: t => t
  | t => t

-- What follows the name of an `if` tag at the head of a text, whether or not the tag ends.
def behindIf? : Text → Option Text
  | '<' :: t =>
    (Text.after? ['i', 'f'] (withoutSlash t)).filter fun rest => !rest.head?.any Text.isWord
  | _ => none

theorem afterIfTag?_eq (t : Text) :
    afterIfTag? t = (behindIf? t).bind fun rest => (rest.dropWhile (· != '>')).tail? := by
  have hname : ∀ name : Text, afterIfTag? ('<' :: '/' :: name) =
      ((Text.after? ['i', 'f'] name).filter fun rest => !rest.head?.any Text.isWord).bind
        fun rest => (rest.dropWhile (· != '>')).tail? := by
    intro name
    simp only [afterIfTag?]
    cases Text.after? ['i', 'f'] name with
    | none => rfl
    | some rest =>
      cases hw : rest.head?.any Text.isWord with
      | true => simp [Option.filter, hw]
      | false => cases hr : rest.dropWhile (· != '>') <;> simp [Option.filter, hw, hr]
  -- without a slash a tag is read like the closing tag of its name
  have hslash : ∀ t, afterIfTag? ('<' :: t) = afterIfTag? ('<' :: '/' :: withoutSlash t) := by
    intro t
    cases t with
    | nil => rfl
    | cons c t =>
      by_cases hc : c = '/'
      · subst hc
        rfl
      · simp [afterIfTag?, withoutSlash, hc]
  cases t with
  | nil => rfl
  | cons c t =>
    by_cases hc : c = '<'
    · subst hc
      exact (hslash t).trans (hname (withoutSlash t))
    · simp [afterIfTag?, behindIf?, hc]

-- The names with which `if` tags begin.
def ifNames : List Text :=
  ["<if".toList, "</if".toList]

theorem behindIf?_eq_some_iff {t behind : Text} :
    behindIf? t = some behind ↔
      ∃ name ∈ ifNames, t = name ++ behind ∧ behind.head?.any Text.isWord = false := by
  constructor
  · intro h
    unfold behindIf? at h
    split at h
    · next t =>
      obtain ⟨hafter, hhead⟩ := Option.filter_eq_some_iff.mp h
      have hword : behind.head?.any Text.isWord = false := by simpa using hhead
      have hname := Text.after?_eq_some_iff.mp hafter
      unfold withoutSlash at hname
      split at hname
      · exact ⟨"</if".toList, by simp [ifNames], by rw [hname]; rfl, hword⟩
      · exact ⟨"<if".toList, by simp [ifNames], by rw [hname]; rfl, hword⟩
    · cases h
  · rintro ⟨name, hname, rfl, hword⟩
    have hcases : name = "<if".toList ∨ name = "</if".toList := by simpa [ifNames] using hname
    rcases hcases with rfl | rfl <;>
      simp [behindIf?, withoutSlash, Text.after?, Option.filter_some, hword]

-- A tag is read to the first `>` behind its name.
theorem afterIfTag?_eq_some_iff {t rest : Text} :
    afterIfTag? t = some rest ↔
      ∃ name ∈ ifNames, ∃ inner, t = name ++ (inner ++ '>' :: rest) ∧ '>' ∉ inner ∧
        inner.head?.any Text.isWord = false := by
  have hhead : ∀ inner : Text,
      (inner ++ '>' :: rest).head?.any Text.isWord = inner.head?.any Text.isWord := by
    intro inner
    cases inner with
    | nil =>
      have hclose : Text.isWord '>' = false := by decide
      exact hclose
    | cons c inner => rfl
  rw [afterIfTag?_eq, Option.bind_eq_some_iff]
  constructor
  · rintro ⟨behind, hb, htail⟩
    obtain ⟨name, hname, rfl, hword⟩ := behindIf?_eq_some_iff.mp hb
    obtain ⟨inner, rfl, hinner⟩ := Text.tail?_dropWhile_eq_some_iff.mp htail
    exact ⟨name, hname, inner, rfl, hinner, by rw [← hhead, hword]⟩
  · rintro ⟨name, hname, inner, rfl, hinner, hword⟩
    exact ⟨_, behindIf?_eq_some_iff.mpr ⟨name, hname, rfl, by rw [hhead, hword]⟩,
      Text.tail?_dropWhile_eq_some_iff.mpr ⟨inner, rfl, hinner⟩⟩

theorem isSome_afterIfTag?_iff {t : Text} :
    (afterIfTag? t).isSome ↔
      ∃ name ∈ ifNames, ∃ behind, t = name ++ behind ∧ behind.head?.any Text.isWord = false ∧
        '>' ∈ behind := by
  have htail : ∀ behind : Text, ((behind.dropWhile (· != '>')).tail?).isSome ↔ '>' ∈ behind := by
    intro behind
    rw [← Decidable.not_iff_not, ← Text.dropWhile_ne_eq_nil_iff]
    cases behind.dropWhile (· != '>') <;> simp
  constructor
  · intro h
    obtain ⟨rest, hrest⟩ := Option.isSome_iff_exists.mp h
    rw [afterIfTag?_eq] at hrest
    obtain ⟨behind, hb, hend⟩ := Option.bind_eq_some_iff.mp hrest
    obtain ⟨name, hname, rfl, hword⟩ := behindIf?_eq_some_iff.mp hb
    exact ⟨name, hname, behind, rfl, hword, (htail behind).mp (by rw [hend]; rfl)⟩
  · rintro ⟨name, hname, behind, rfl, hword, hend⟩
    rw [afterIfTag?_eq, behindIf?_eq_some_iff.mpr ⟨name, hname, rfl, hword⟩]
    exact (htail behind).mpr hend

theorem exists_of_behindIf? {t rest : Text} (h : behindIf? t = some rest) :
    ∃ name, t = name ++ rest ∧ '>' ∉ name := by
  have hnames : ∀ name ∈ ifNames, '>' ∉ name := by decide
  obtain ⟨name, hname, rfl, -⟩ := behindIf?_eq_some_iff.mp h
  exact ⟨name, rfl, hnames name hname⟩

-- A tag that is read ends in a `>`.
theorem exists_of_afterIfTag? {t rest : Text} (h : afterIfTag? t = some rest) :
    ∃ tag, t = tag ++ '>' :: rest := by
  obtain ⟨name, -, inner, rfl, -⟩ := afterIfTag?_eq_some_iff.mp h
  exact ⟨name ++ inner, (List.append_assoc ..).symm⟩

theorem suffix_of_afterIfTag? {t rest : Text} (h : afterIfTag? t = some rest) : rest <:+ t := by
  obtain ⟨tag, rfl⟩ := exists_of_afterIfTag? h
  exact (List.suffix_cons '>' rest).trans (List.suffix_append tag _)

-- A tag that is not read has no end.
theorem not_mem_of_afterIfTag?_eq_none {t behind : Text} (hb : behindIf? t = some behind)
    (h : afterIfTag? t = none) : '>' ∉ behind := by
  rw [afterIfTag?_eq, hb, Option.bind_some] at h
  cases hd : behind.dropWhile (· != '>') with
  | nil => exact Text.dropWhile_ne_eq_nil_iff.mp hd
  | cons d rest =>
    rw [hd] at h
    cases h

-- Every `if` tag that begins in the text ends in it.
def ClosesIfTags (t : Text) : Prop :=
  ∀ s, s <:+ t → (behindIf? s).isSome → '>' ∈ s

instance (t : Text) : Decidable (ClosesIfTags t) :=
  decidable_of_iff (∀ s ∈ t.tails, (behindIf? s).isSome → '>' ∈ s)
    (by simp only [List.mem_tails, ClosesIfTags])

theorem behindIf?_eq_none {c : Char} (hc : c ≠ '<') (t : Text) : behindIf? (c :: t) = none := by
  simp [behindIf?, hc]

theorem closesIfTags_of_not_mem {t : Text} (h : '<' ∉ t) : ClosesIfTags t := by
  intro s hs hb
  cases s with
  | nil => cases hb
  | cons c s =>
    have hc : c ≠ '<' := by
      rintro rfl
      exact h (hs.subset List.mem_cons_self)
    rw [behindIf?_eq_none hc] at hb
    cases hb

theorem ClosesIfTags.cons {c : Char} {t : Text} (hc : behindIf? (c :: t) = none)
    (h : ClosesIfTags t) : ClosesIfTags (c :: t) := by
  intro s hs hb
  rcases List.suffix_cons_iff.mp hs with rfl | hs
  · rw [hc] at hb
    cases hb
  · exact h s hs hb

-- What stands in front of a `>` does not matter.
theorem ClosesIfTags.append_close {t : Text} (h : ClosesIfTags t) (s : Text) :
    ClosesIfTags (s ++ '>' :: t) := by
  intro u hu hb
  rcases List.suffix_or_suffix_of_suffix hu (List.suffix_append s ('>' :: t)) with hu | hu
  · rcases List.suffix_cons_iff.mp hu with rfl | hu
    · exact List.mem_cons_self
    · exact h u hu hb
  · exact hu.subset List.mem_cons_self

section Part

-- A character of which no `if` tag is made, nor a word.
variable {c : Char} (htag : c ∉ "</if".toList) (hword : Text.isWord c = false)
include htag hword

theorem behindIf?_append_cons (s t : Text) :
    behindIf? (s ++ c :: t) = (behindIf? s).map (· ++ c :: t) := by
  have hslash : ∀ s, withoutSlash (s ++ c :: t) = withoutSlash s ++ c :: t := by
    intro s
    cases s with
    | nil =>
      have hc : c ≠ '/' := (ne_of_mem_of_not_mem (by decide) htag).symm
      simp [withoutSlash, hc]
    | cons d s =>
      by_cases hd : d = '/'
      · simp [hd, withoutSlash]
      · simp [withoutSlash, hd]
  have hif : c ∉ ['i', 'f'] := fun hm => htag (by simp at hm ⊢; tauto)
  have hhead : ∀ rest : Text, ((rest ++ c :: t).head?.any Text.isWord) = rest.head?.any Text.isWord := by
    intro rest
    cases rest <;> simp [hword]
  cases s with
  | nil =>
    have hc : c ≠ '<' := (ne_of_mem_of_not_mem (by decide) htag).symm
    simp [behindIf?, hc]
  | cons d s =>
    by_cases hd : d = '<'
    · subst hd
      simp only [List.cons_append, behindIf?, hslash, Text.after?_append_cons hif]
      cases Text.after? ['i', 'f'] (withoutSlash s) with
      | none => rfl
      | some rest => simp only [Option.map_some, Option.filter_some, hhead]; split <;> rfl
    · simp [behindIf?, hd]

-- A tag that ends in the first part is read there; one that ends nowhere is not read.
theorem afterIfTag?_append_cons {s t : Text}
    (h : (behindIf? s).isSome → '>' ∈ s ∨ '>' ∉ c :: t) :
    afterIfTag? (s ++ c :: t) = (afterIfTag? s).map (· ++ c :: t) := by
  rw [afterIfTag?_eq, afterIfTag?_eq, behindIf?_append_cons htag hword]
  cases hb : behindIf? s with
  | none => rfl
  | some rest =>
    obtain ⟨name, rfl, hname⟩ := exists_of_behindIf? hb
    simp only [Option.map_some, Option.bind_some, List.dropWhile_append]
    cases hd : rest.dropWhile (· != '>') with
    | cons d more => rfl
    | nil =>
      have hrest : '>' ∉ rest := Text.dropWhile_ne_eq_nil_iff.mp hd
      have hbehind : '>' ∉ c :: t := by
        rcases h (by rw [hb]; rfl) with hm | hm
        · exact absurd (List.mem_append.mp hm) (by simp [hname, hrest])
        · exact hm
      simp [Text.dropWhile_ne_eq_nil_iff.mpr hbehind]

end Part

-- The text without its `if` tags.
def withoutIfTags (t : Text) : Text :=
  ifTag.replace (fun _ => []) t

@[simp]
theorem withoutIfTags_nil : withoutIfTags [] = [] :=
  Mark.replace_nil _ _

theorem leavesEnd_ifTag : ifTag.LeavesEnd :=
  Mark.leavesEnd_ofRest suffix_of_afterIfTag?

theorem mem_of_mem_withoutIfTags {c : Char} {t : Text} (h : c ∈ withoutIfTags t) : c ∈ t := by
  rcases Mark.mem_of_mem_replace leavesEnd_ifTag h with h | ⟨_, -, h⟩
  · exact h
  · cases h

theorem withoutIfTags_of_afterIfTag? {t rest : Text} (h : afterIfTag? t = some rest) :
    withoutIfTags t = withoutIfTags rest :=
  Mark.replace_ofRest_of_some h _

theorem withoutIfTags_cons {c : Char} {t : Text} (h : afterIfTag? (c :: t) = none) :
    withoutIfTags (c :: t) = c :: withoutIfTags t :=
  Mark.replace_ofRest_of_none h _

theorem afterIfTag?_eq_none {c : Char} (hc : c ≠ '<') (t : Text) : afterIfTag? (c :: t) = none := by
  rw [afterIfTag?_eq, behindIf?_eq_none hc, Option.bind_none]

theorem withoutIfTags_append_of_not_mem {s : Text} (h : '<' ∉ s) (t : Text) :
    withoutIfTags (s ++ t) = s ++ withoutIfTags t := by
  refine Mark.replace_append_of_no_mark _ fun c u hu => ?_
  have hc : c ≠ '<' := ne_of_mem_of_not_mem (hu.subset List.mem_cons_self) h
  rw [ifTag, Mark.read?_ofRest, afterIfTag?_eq_none hc, Option.map_none]

theorem withoutIfTags_of_not_mem {t : Text} (h : '<' ∉ t) : withoutIfTags t = t := by
  have happend := withoutIfTags_append_of_not_mem h []
  rwa [List.append_nil, withoutIfTags, withoutIfTags, Mark.replace_nil, List.append_nil] at happend

section Part

variable {c : Char} (htag : c ∉ "</if".toList) (hword : Text.isWord c = false)
include htag hword

-- A part in which every tag ends, or behind which nothing ends a tag, loses its own tags and no more.
theorem withoutIfTags_append_cons {s t : Text} (h : ClosesIfTags s ∨ '>' ∉ c :: t) :
    withoutIfTags (s ++ c :: t) = withoutIfTags s ++ c :: withoutIfTags t := by
  have hc : c ≠ '<' := (ne_of_mem_of_not_mem (by decide) htag).symm
  refine Mark.replace_append_cons suffix_of_afterIfTag? _ (afterIfTag?_eq_none hc t) fun u hu => ?_
  exact afterIfTag?_append_cons htag hword fun hb => h.imp_left fun hs => hs u hu hb

-- A tag that does not end in its part goes on to the first `>` of the next one.
theorem exists_withoutIfTags_append_cons {s t behind : Text} (hb : behindIf? s = some behind)
    (hs : afterIfTag? s = none) (hend : '>' ∈ t) :
    ∃ rest, rest <:+ t ∧ withoutIfTags (s ++ c :: t) = withoutIfTags rest := by
  have hbehind : ∀ d ∈ behind, (d != '>') := fun d hd =>
    Text.ne_of_not_mem (not_mem_of_afterIfTag?_eq_none hb hs) hd
  have hread : afterIfTag? (s ++ c :: t) = ((c :: t).dropWhile (· != '>')).tail? := by
    rw [afterIfTag?_eq, behindIf?_append_cons htag hword, hb]
    simp only [Option.map_some, Option.bind_some, List.dropWhile_append_of_pos hbehind]
  cases hdrop : (c :: t).dropWhile (· != '>') with
  | nil => exact absurd (List.mem_cons_of_mem c hend) (Text.dropWhile_ne_eq_nil_iff.mp hdrop)
  | cons d rest =>
    rw [hdrop] at hread
    have hsuffix : d :: rest <:+ c :: t := hdrop ▸ List.dropWhile_suffix _
    refine ⟨rest, ?_, withoutIfTags_of_afterIfTag? hread⟩
    rcases List.suffix_cons_iff.mp hsuffix with heq | hsuffix
    · cases heq
      exact List.suffix_refl _
    · exact (List.suffix_cons d rest).trans hsuffix

-- A tag that begins in one part and ends in the next takes the rest of its own part with it.
theorem count_withoutIfTags_append_cons_lt {s t : Text} (hs : ¬ClosesIfTags s) (hend : '>' ∈ t)
    (ht : '<' ∉ t) :
    (withoutIfTags (s ++ c :: t)).count '<' < (withoutIfTags s).count '<' := by
  induction s using Mark.ofRest_induction length_lt_of_afterIfTag? with
  | nil => exact absurd (closesIfTags_of_not_mem (by simp)) hs
  | mark u rest hrest ih =>
    obtain ⟨tag, rfl⟩ := exists_of_afterIfTag? hrest
    have hread := afterIfTag?_append_cons htag hword (s := tag ++ '>' :: rest) (t := t)
      fun _ => .inl (by simp)
    rw [hrest] at hread
    rw [withoutIfTags_of_afterIfTag? hread, withoutIfTags_of_afterIfTag? hrest]
    exact ih fun hrest => hs (hrest.append_close tag)
  | char d u hr ih =>
    cases hb : behindIf? (d :: u) with
    | none =>
      have hread : afterIfTag? (d :: (u ++ c :: t)) = none := by
        rw [← List.cons_append, afterIfTag?_append_cons htag hword (by simp [hb]), hr]
        rfl
      rw [List.cons_append, withoutIfTags_cons hread, withoutIfTags_cons hr, List.count_cons,
        List.count_cons]
      exact Nat.add_lt_add_right (ih fun hu => hs (hu.cons hb)) _
    | some behind =>
      have hd : d = '<' := Classical.byContradiction fun hd => by
        rw [behindIf?_eq_none hd] at hb
        cases hb
      obtain ⟨rest, hsuffix, hrest⟩ := exists_withoutIfTags_append_cons htag hword hb hr hend
      have hnone : '<' ∉ rest := fun hm => ht (hsuffix.subset hm)
      rw [hrest, withoutIfTags_of_not_mem hnone, List.count_eq_zero.mpr hnone, withoutIfTags_cons hr,
        hd, List.count_cons_self]
      exact Nat.succ_pos _

end Part

end Statement

end SqlPreview
