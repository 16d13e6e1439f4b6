import SqlPreview.Proofs.Parameter.Written

namespace SqlPreview

namespace Placeholder

theorem isName_of_read? {t rest : Text} {p : Placeholder} (h : read? t = some (p, rest)) :
    Name.isName p.name := by
  unfold read? at h
  split at h
  · split at h
    · next form name rest' hform hname =>
      cases h
      exact Name.isName_of_split? hname
    · cases h
  · cases h

theorem isName_of_mem_all {p : Placeholder} {t : Text} (h : p ∈ mark.all t) : Name.isName p.name := by
  obtain ⟨s, rest, -, hr⟩ := Mark.exists_read?_of_mem_all leavesEnd_mark h
  exact isName_of_read? hr

-- A text that begins with a placeholder begins with it under any continuation.
theorem read?_append {t rest : Text} {p : Placeholder} (h : read? t = some (p, rest)) (more : Text) :
    read? (t ++ more) = some (p, rest ++ more) := by
  rw [← append_of_read? h, List.append_assoc]
  exact read?_toText_append (isName_of_read? h) _

theorem ofSigil?_of_read? {c : Char} {t rest : Text} {p : Placeholder}
    (h : read? (c :: t) = some (p, rest)) : Form.ofSigil? c ≠ none ∧ t.head? = some '{' := by
  unfold read? at h
  split at h
  · next heq =>
    cases heq
    split at h
    · next hform _ => exact ⟨by simp [hform], rfl⟩
    · cases h
  · cases h

theorem ofSigil?_of_isNameChar {c : Char} (h : Name.isNameChar c) : Form.ofSigil? c = none := by
  unfold Form.ofSigil?
  split
  · exact absurd h (by decide)
  · exact absurd h (by decide)
  · rfl

-- Behind its first character a placeholder holds no sigil.
theorem ofSigil?_of_mem_tail {p : Placeholder} (h : Name.isName p.name) {c : Char}
    (hc : c ∈ p.toText.tail) : Form.ofSigil? c = none := by
  simp only [toText, List.cons_append, List.tail_cons, List.mem_cons, List.mem_append,
    List.not_mem_nil, or_false] at hc
  rcases hc with rfl | hc | rfl
  · rfl
  · exact ofSigil?_of_isNameChar (Name.isNameChar_of_mem h hc)
  · rfl

-- Scanning finds every placeholder that can be read off an end of the text.
theorem mem_all_of_suffix {s t rest : Text} {p : Placeholder} (hs : s <:+ t)
    (hr : read? s = some (p, rest)) : p ∈ mark.all t := by
  induction t using Mark.scan_induction mark with
  | nil =>
    rw [List.suffix_nil.mp hs] at hr
    cases hr
  | mark t q rest' hq ih =>
    rw [Mark.all_of_read? hq]
    obtain ⟨before, hbefore⟩ := hs
    rw [← append_of_read? hq] at hbefore
    rcases List.append_eq_append_iff.mp hbefore with ⟨inside, htext, rfl⟩ | ⟨inside, -, hs⟩
    · match before, inside with
      | [], inside =>
        rw [List.nil_append] at htext
        rw [← htext, append_of_read? hq] at hr
        cases hr.symm.trans hq
        exact List.mem_cons_self
      | b :: before, [] => exact List.mem_cons_of_mem _ (ih (List.suffix_refl _))
      | b :: before, c :: inside =>
        have hc : c ∈ q.toText.tail := by simp [htext]
        exact absurd (ofSigil?_of_mem_tail (isName_of_read? hq) hc) (ofSigil?_of_read? hr).1
    · exact List.mem_cons_of_mem _ (ih ⟨inside, hs.symm⟩)
  | char c t hc ih =>
    rw [Mark.all_cons hc]
    rcases List.suffix_cons_iff.mp hs with rfl | hs
    · cases hr.symm.trans hc
    · exact ih hs

-- A property of every sigil of a text and what stands behind it.
def AtSigils (P : Char → Text → Prop) (t : Text) : Prop :=
  ∀ c behind, c :: behind <:+ t → Form.ofSigil? c ≠ none → P c behind

section AtSigils

variable {P : Char → Text → Prop} {s t : Text}

theorem atSigils_nil : AtSigils P [] := by
  intro c behind hs
  simp at hs

theorem atSigils_cons {c : Char} :
    AtSigils P (c :: t) ↔ (Form.ofSigil? c ≠ none → P c t) ∧ AtSigils P t := by
  constructor
  · intro h
    exact ⟨h c t (List.suffix_refl _), fun d behind hs => h d behind (hs.trans (List.suffix_cons c t))⟩
  · rintro ⟨hc, ht⟩ d behind hs
    rcases List.suffix_cons_iff.mp hs with heq | hs
    · cases heq
      exact hc
    · exact ht d behind hs

theorem AtSigils.suffix (h : AtSigils P t) (hs : s <:+ t) : AtSigils P s :=
  fun c behind hb => h c behind (hb.trans hs)

instance decidableAtSigils [∀ c t, Decidable (P c t)] : ∀ t, Decidable (AtSigils P t)
  | [] => .isTrue atSigils_nil
  | _ :: t =>
    have : Decidable (AtSigils P t) := decidableAtSigils t
    decidable_of_iff _ atSigils_cons.symm

end AtSigils

-- What follows a sigil keeps it from beginning a placeholder: a character before which the text is not
-- cut, that is not a brace and that does not begin a placeholder itself.
structure Loose (cut : Char → Bool) (behind : Text) : Prop where
  next : ∃ d ∈ behind.head?, cut d = false ∧ d ≠ '{'
  unread : read? behind = none

-- The text begins with one of the placeholders that are allowed.
def Begins (allowed : Placeholder → Prop) (t : Text) : Prop :=
  ∃ found, read? t = some found ∧ allowed found.1

-- Every sigil begins one of the placeholders that are allowed, or is loose.
def Settled (cut : Char → Bool) (allowed : Placeholder → Prop) (t : Text) : Prop :=
  AtSigils (fun c behind => Begins allowed (c :: behind) ∨ Loose cut behind) t

-- A settled text without any placeholder.
abbrev Sealed (cut : Char → Bool) (t : Text) : Prop :=
  Settled cut (fun _ => False) t

variable {cut : Char → Bool} {allowed allowed' : Placeholder → Prop} {s t : Text}

-- A sigil that does not stand before a brace begins nothing.
theorem read?_cons_eq_none {c : Char} (h : ∀ d ∈ t.head?, d ≠ '{') : read? (c :: t) = none := by
  cases hr : read? (c :: t) with
  | none => rfl
  | some found => exact absurd rfl (h '{' (ofSigil?_of_read? hr).2)

theorem Loose.read?_cons (h : Loose cut t) (c : Char) : read? (c :: t) = none := by
  obtain ⟨d, hd, -, hne⟩ := h.next
  refine read?_cons_eq_none fun e he => ?_
  rwa [Option.mem_unique he hd]

theorem settled_nil : Settled cut allowed [] :=
  atSigils_nil

theorem settled_cons {c : Char} :
    Settled cut allowed (c :: t) ↔
      (Form.ofSigil? c ≠ none → Begins allowed (c :: t) ∨ Loose cut t) ∧
      Settled cut allowed t :=
  atSigils_cons

instance {cut : Char → Bool} {t : Text} : Decidable (Loose cut t) :=
  decidable_of_iff ((t.head?.any fun d => cut d = false ∧ d ≠ '{') ∧ read? t = none)
    ⟨fun ⟨hnext, hunread⟩ => ⟨by simpa [Option.any_eq_true] using hnext, hunread⟩,
      fun ⟨hnext, hunread⟩ => ⟨by simpa [Option.any_eq_true] using hnext, hunread⟩⟩

instance {allowed : Placeholder → Prop} [DecidablePred allowed] {t : Text} :
    Decidable (Begins allowed t) :=
  decidable_of_iff ((read? t).any fun found => allowed found.1) (by simp [Begins, Option.any_eq_true])

instance {cut : Char → Bool} {allowed : Placeholder → Prop} [DecidablePred allowed] {t : Text} :
    Decidable (Settled cut allowed t) :=
  decidableAtSigils t

theorem Settled.suffix (h : Settled cut allowed t) (hs : s <:+ t) : Settled cut allowed s :=
  AtSigils.suffix h hs

theorem Settled.mono (h : Settled cut allowed t) (hall : ∀ p, allowed p → allowed' p) :
    Settled cut allowed' t := by
  intro c behind hs hc
  refine (h c behind hs hc).imp_left ?_
  rintro ⟨found, hr, hp⟩
  exact ⟨found, hr, hall found.1 hp⟩

theorem settled_of_no_sigil (h : t.all fun c => (Form.ofSigil? c).isNone) :
    Settled cut allowed t := by
  intro c behind hs hc
  have hnone := List.all_eq_true.mp h c (hs.subset List.mem_cons_self)
  exact absurd (Option.isNone_iff_eq_none.mp hnone) hc

theorem Settled.allowed_of_mem_all (h : Settled cut allowed t) {p : Placeholder}
    (hp : p ∈ mark.all t) : allowed p := by
  obtain ⟨behind, rest, hs, hr⟩ := Mark.exists_read?_of_mem_all leavesEnd_mark hp
  cases behind with
  | nil => cases hr
  | cons c behind =>
    rcases h c behind hs (ofSigil?_of_read? hr).1 with ⟨found, hq, hallowed⟩ | hloose
    · cases hr.symm.trans hq
      exact hallowed
    · cases hr.symm.trans (hloose.read?_cons c)

theorem Sealed.all_eq_nil (h : Sealed cut t) : mark.all t = [] :=
  List.eq_nil_iff_forall_not_mem.mpr fun _ hp => h.allowed_of_mem_all hp

-- Loose in front of a settled text is loose in front of all of its continuations.
theorem Loose.append (h : Loose cut s) (hs : Settled cut allowed s) (t : Text) :
    Loose cut (s ++ t) := by
  obtain ⟨hnext, hunread⟩ := h
  cases s with
  | nil => simp at hnext
  | cons c s =>
    refine ⟨hnext, ?_⟩
    cases hc : Form.ofSigil? c with
    | none => exact read?_eq_none hc _
    | some form =>
      rcases (settled_cons.mp hs).1 (by simp [hc]) with ⟨found, hr, -⟩ | ⟨⟨d, hd, -, hne⟩, -⟩
      · cases hunread.symm.trans hr
      · refine read?_cons_eq_none fun e he => ?_
        cases s with
        | nil => cases hd
        | cons d' s => rwa [Option.mem_unique he hd]

theorem Settled.append (hs : Settled cut allowed s) (ht : Settled cut allowed t) :
    Settled cut allowed (s ++ t) := by
  induction s with
  | nil => exact ht
  | cons c s ih =>
    obtain ⟨hc, hrest⟩ := settled_cons.mp hs
    refine settled_cons.mpr ⟨fun hsigil => ?_, ih hrest⟩
    rcases hc hsigil with ⟨⟨p, rest⟩, hr, hp⟩ | hloose
    · exact .inl ⟨(p, rest ++ t), read?_append hr t, hp⟩
    · exact .inr (hloose.append hrest t)

-- Placeholders are not cut in two.
def SparesPlaceholders (cut : Char → Bool) : Prop :=
  ∀ p : Placeholder, Name.isName p.name → ∀ c ∈ p.toText, cut c = false

-- What stands before a cut is settled as it was.
theorem Settled.of_append (hcut : SparesPlaceholders cut) (h : Settled cut allowed (s ++ t))
    (ht : ∀ d ∈ t.head?, cut d) : Settled cut allowed s := by
  induction s with
  | nil => exact settled_nil
  | cons c s ih =>
    obtain ⟨hc, hrest⟩ := settled_cons.mp h
    refine settled_cons.mpr ⟨fun hsigil => ?_, ih hrest⟩
    rcases hc hsigil with ⟨⟨p, rest⟩, hr, hp⟩ | ⟨⟨d, hd, hkeep, hne⟩, hunread⟩
    · left
      have hname := isName_of_read? hr
      have htext : p.toText ++ rest = (c :: s) ++ t := append_of_read? hr
      rcases List.append_eq_append_iff.mp htext with ⟨behind, hs, -⟩ | ⟨behind, hs, ht'⟩
      · rw [hs]
        exact ⟨(p, behind), read?_toText_append hname behind, hp⟩
      · cases behind with
        | nil =>
          rw [List.append_nil] at hs
          have hread := read?_toText_append hname []
          rw [List.append_nil, hs] at hread
          exact ⟨(p, []), hread, hp⟩
        | cons d behind =>
          have hspared := hcut p hname d (by simp [hs])
          rw [ht d (by simp [ht'])] at hspared
          cases hspared
    · right
      cases s with
      | nil => simp [ht d hd] at hkeep
      | cons e s =>
        refine ⟨⟨d, hd, hkeep, hne⟩, ?_⟩
        cases hr : read? (e :: s) with
        | none => rfl
        | some found => cases hunread.symm.trans (read?_append hr t)

-- A replacement changes nothing right behind a loose sigil.
theorem Loose.replace (h : Loose cut t) (hs : Settled cut allowed t) (write : Placeholder → Text) :
    Loose cut (mark.replace write t) := by
  obtain ⟨hnext, hunread⟩ := h
  cases t with
  | nil => simp at hnext
  | cons c t =>
    rw [Mark.replace_cons write hunread]
    refine ⟨hnext, ?_⟩
    cases hc : Form.ofSigil? c with
    | none => exact read?_eq_none hc _
    | some form =>
      rcases (settled_cons.mp hs).1 (by simp [hc]) with ⟨found, hr, -⟩ | ⟨⟨d, hd, -, hne⟩, hd'⟩
      · cases hunread.symm.trans hr
      · cases t with
        | nil => cases hd
        | cons d' t =>
          rw [Mark.replace_cons write hd']
          refine read?_cons_eq_none fun e he => ?_
          rwa [Option.mem_unique he hd]

-- Replacing the placeholders of a settled text by settled texts makes a settled text.
theorem Settled.replace (h : Settled cut allowed t) {write : Placeholder → Text}
    (hw : ∀ p ∈ mark.all t, Settled cut allowed' (write p)) :
    Settled cut allowed' (mark.replace write t) := by
  induction t using Mark.scan_induction mark with
  | nil =>
    rw [Mark.replace_nil]
    exact settled_nil
  | mark t p rest hr ih =>
    rw [Mark.all_of_read? hr, List.forall_mem_cons] at hw
    rw [Mark.replace_of_read? write hr]
    exact hw.1.append (ih (h.suffix (leavesEnd_mark hr)) hw.2)
  | char c t hc ih =>
    obtain ⟨hsigil, hrest⟩ := settled_cons.mp h
    rw [Mark.all_cons hc] at hw
    rw [Mark.replace_cons write hc]
    refine settled_cons.mpr ⟨fun hne => ?_, ih hrest hw⟩
    rcases hsigil hne with ⟨found, hr, -⟩ | hloose
    · cases hr.symm.trans hc
    · exact .inr (hloose.replace hrest write)

-- No placeholder begins in a settled text and ends behind it.
theorem Settled.replace_append (h : Settled cut allowed s) (write : Placeholder → Text) (t : Text) :
    mark.replace write (s ++ t) = mark.replace write s ++ mark.replace write t := by
  induction s using Mark.scan_induction mark with
  | nil => simp
  | mark s p rest hr ih =>
    rw [Mark.replace_of_read? write (read?_append hr t), Mark.replace_of_read? write hr,
      ih (h.suffix (leavesEnd_mark hr)), List.append_assoc]
  | char c s hc ih =>
    obtain ⟨hsigil, hrest⟩ := settled_cons.mp h
    have hc' : mark.read? (c :: (s ++ t)) = none := by
      by_cases hnone : Form.ofSigil? c = none
      · exact read?_eq_none hnone _
      · rcases hsigil hnone with ⟨found, hr, -⟩ | hloose
        · cases hr.symm.trans hc
        · exact (hloose.append hrest t).read?_cons c
    rw [List.cons_append, Mark.replace_cons write hc', Mark.replace_cons write hc, ih hrest,
      List.cons_append]

end Placeholder

end SqlPreview
