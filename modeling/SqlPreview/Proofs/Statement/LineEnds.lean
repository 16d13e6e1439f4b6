import SqlPreview.Proofs.Statement.Tidy

namespace SqlPreview

namespace Text

theorem prefix_cons_iff_of_not_mem {c : Char} {s t : Text} (h : c ∉ s) : s <+: c :: t ↔ s = [] := by
  rw [List.prefix_cons_iff]
  refine or_iff_left fun ⟨u, hu, _⟩ => h ?_
  rw [hu]
  exact List.mem_cons_self

theorem infix_cons_iff_of_not_mem {c : Char} {s t : Text} (h : c ∉ s) : s <:+: c :: t ↔ s <:+: t := by
  rw [List.infix_cons_iff, prefix_cons_iff_of_not_mem h]
  refine or_iff_right_of_imp fun hs => ?_
  rw [hs]
  exact List.nil_infix

theorem pair_infix_cons_iff {a b c : Char} {t : Text} :
    [a, b] <:+: c :: t ↔ (c = a ∧ t.head? = some b) ∨ [a, b] <:+: t := by
  rw [List.infix_cons_iff, List.cons_prefix_cons, List.singleton_prefix_iff_head?_eq_some,
    eq_comm (a := a)]

end Text

namespace Statement

section Blanks

-- The characters that are squeezed.
abbrev Spacing (c : Char) : Prop :=
  c = ' ' ∨ c = '\t'

-- A space or a tab becomes a space, or goes if what follows it begins with one.
@[elab_as_elim]
theorem squeezeBlanks_induction {motive : Text → Prop} (nil : motive [])
    (again : ∀ c t, Spacing c → squeezeBlanks (c :: t) = squeezeBlanks t →
      (squeezeBlanks t).head? = some ' ' → motive t → motive (c :: t))
    (first : ∀ c t, Spacing c → squeezeBlanks (c :: t) = ' ' :: squeezeBlanks t →
      (squeezeBlanks t).head? ≠ some ' ' → motive t → motive (c :: t))
    (other : ∀ c t, ¬Spacing c → squeezeBlanks (c :: t) = c :: squeezeBlanks t →
      motive t → motive (c :: t)) (t : Text) : motive t := by
  induction t with
  | nil => exact nil
  | cons c t ih =>
    by_cases hc : Spacing c
    · by_cases hhead : (squeezeBlanks t).head? = some ' '
      · refine again c t hc ?_ hhead ih
        obtain ⟨rest, hrest⟩ := List.head?_eq_some_iff.mp hhead
        rw [squeezeBlanks, if_pos hc, hrest]
        rfl
      · refine first c t hc ?_ hhead ih
        rw [squeezeBlanks, if_pos hc]
        split
        · next rest hrest =>
          rw [hrest] at hhead
          exact absurd rfl hhead
        · rfl
    · exact other c t hc (by rw [squeezeBlanks, if_neg hc]) ih

theorem tab_not_mem_squeezeBlanks (t : Text) : '\t' ∉ squeezeBlanks t := by
  induction t using squeezeBlanks_induction with
  | nil => exact List.not_mem_nil
  | again c t hc heq hhead ih => rwa [heq]
  | first c t hc heq hhead ih =>
    rw [heq, List.mem_cons, not_or]
    exact ⟨by decide, ih⟩
  | other c t hc heq ih =>
    rw [heq, List.mem_cons, not_or]
    exact ⟨fun htab => hc (.inr htab.symm), ih⟩

theorem not_infix_spaces_squeezeBlanks (t : Text) : ¬[' ', ' '] <:+: squeezeBlanks t := by
  induction t using squeezeBlanks_induction with
  | nil => decide
  | again c t hc heq hhead ih => rwa [heq]
  | first c t hc heq hhead ih =>
    rw [heq, Text.pair_infix_cons_iff, not_or, not_and]
    exact ⟨fun _ => hhead, ih⟩
  | other c t hc heq ih =>
    rw [heq, Text.pair_infix_cons_iff, not_or, not_and]
    exact ⟨fun hspace => absurd (.inl hspace) hc, ih⟩

section Stretch

-- A stretch without spaces and tabs.
variable {s : Text} (h : ∀ c, Spacing c → c ∉ s)
include h

theorem prefix_squeezeBlanks_iff (t : Text) : s <+: squeezeBlanks t ↔ s <+: t := by
  have hspace : ' ' ∉ s := h ' ' (.inl rfl)
  induction t using squeezeBlanks_induction generalizing s with
  | nil => rfl
  | again c t hc heq hhead ih =>
    obtain ⟨rest, hrest⟩ := List.head?_eq_some_iff.mp hhead
    rw [heq, hrest, Text.prefix_cons_iff_of_not_mem hspace, Text.prefix_cons_iff_of_not_mem (h c hc)]
  | first c t hc heq hhead ih =>
    rw [heq, Text.prefix_cons_iff_of_not_mem hspace, Text.prefix_cons_iff_of_not_mem (h c hc)]
  | other c t hc heq ih =>
    cases s with
    | nil => exact iff_of_true List.nil_prefix List.nil_prefix
    | cons d s =>
      have hs : ∀ c, Spacing c → c ∉ s := fun c hc hm => h c hc (List.mem_cons_of_mem d hm)
      rw [heq, List.cons_prefix_cons, List.cons_prefix_cons]
      exact and_congr_right fun _ => ih hs (hs ' ' (.inl rfl))

-- It is found wherever it was.
theorem infix_squeezeBlanks_iff (t : Text) : s <:+: squeezeBlanks t ↔ s <:+: t := by
  induction t using squeezeBlanks_induction with
  | nil => rfl
  | again c t hc heq hhead ih => rw [heq, ih, Text.infix_cons_iff_of_not_mem (h c hc)]
  | first c t hc heq hhead ih =>
    rw [heq, Text.infix_cons_iff_of_not_mem (h ' ' (.inl rfl)), ih,
      Text.infix_cons_iff_of_not_mem (h c hc)]
  | other c t hc heq ih =>
    have hfront : s <+: c :: squeezeBlanks t ↔ s <+: c :: t := by
      rw [← heq, prefix_squeezeBlanks_iff h]
    rw [heq, List.infix_cons_iff, hfront, ih, List.infix_cons_iff]

end Stretch

end Blanks

theorem afterLineEnd?_eq_some_iff {t rest : Text} :
    afterLineEnd? t = some rest ↔ t = '\n' :: rest ∨ t = '\r' :: '\n' :: rest := by
  constructor
  · intro h
    unfold afterLineEnd? at h
    split at h
    · cases h
      exact .inl rfl
    · cases h
      exact .inr rfl
    · cases h
  · rintro (rfl | rfl) <;> rfl

theorem afterLineEnd?_dropLineEnds (t : Text) : afterLineEnd? (dropLineEnds t) = none := by
  induction t using dropLineEnds.induct with
  | case1 t rest h ih => rwa [dropLineEnds_of_some h]
  | case2 t h => rwa [dropLineEnds_of_none h]

theorem afterBlankLines?_eq_some_iff {t rest : Text} :
    afterBlankLines? t = some rest ↔ ∃ second first, (afterLineEnd? t = some first ∧
      afterLineEnd? first = some second) ∧ dropLineEnds second = rest := by
  simp only [afterBlankLines?, Option.map_eq_some_iff, Option.bind_eq_some_iff, exists_and_right]

theorem isSome_afterBlankLines? {t first : Text} (h : afterLineEnd? t = some first) :
    (afterBlankLines? t).isSome = (afterLineEnd? first).isSome := by
  rw [afterBlankLines?, h, Option.isSome_map, Option.bind_some]

theorem afterBlankLines?_eq_none {t : Text} (h : afterLineEnd? t = none) : afterBlankLines? t = none := by
  rw [afterBlankLines?, h]
  rfl

-- A run of line ends is read to its end, and it ends with a line feed.
theorem afterLineEnd?_eq_none_of_afterBlankLines? {t rest : Text} (h : afterBlankLines? t = some rest) :
    afterLineEnd? rest = none := by
  obtain ⟨second, -, -, rfl⟩ := afterBlankLines?_eq_some_iff.mp h
  exact afterLineEnd?_dropLineEnds second

theorem feed_cons_suffix_of_afterLineEnd? {t rest : Text} (h : afterLineEnd? t = some rest) :
    '\n' :: rest <:+ t := by
  rcases afterLineEnd?_eq_some_iff.mp h with rfl | rfl
  · exact List.suffix_refl _
  · exact List.suffix_cons _ _

theorem feed_cons_suffix_of_afterBlankLines? {t rest : Text} (h : afterBlankLines? t = some rest) :
    '\n' :: rest <:+ t := by
  have hdrop : ∀ u : Text, '\n' :: dropLineEnds u <:+ '\n' :: u := by
    intro u
    induction u using dropLineEnds.induct with
    | case1 u rest h ih =>
      rw [dropLineEnds_of_some h]
      exact ih.trans ((feed_cons_suffix_of_afterLineEnd? h).trans (List.suffix_cons _ _))
    | case2 u h => rw [dropLineEnds_of_none h]
  obtain ⟨second, first, ⟨hfirst, hsecond⟩, rfl⟩ := afterBlankLines?_eq_some_iff.mp h
  have hfeed := (feed_cons_suffix_of_afterLineEnd? hsecond).trans (List.suffix_cons '\n' first)
  exact (hdrop second).trans (hfeed.trans (feed_cons_suffix_of_afterLineEnd? hfirst))

theorem head?_squeezeLineEnds (t : Text) :
    (squeezeLineEnds t).head? = if (afterBlankLines? t).isSome then some '\n' else t.head? := by
  cases h : afterBlankLines? t with
  | some rest => rw [squeezeLineEnds_of_some h]; rfl
  | none =>
    cases t with
    | nil => rw [squeezeLineEnds_nil]; rfl
    | cons c t => rw [squeezeLineEnds_cons h]; rfl

theorem head?_squeezeLineEnds_ne {t : Text} (h : afterLineEnd? t = none) :
    (squeezeLineEnds t).head? ≠ some '\n' := by
  rw [head?_squeezeLineEnds, afterBlankLines?_eq_none h]
  intro hhead
  obtain ⟨u, rfl⟩ := List.head?_eq_some_iff.mp hhead
  cases h

-- A line feed that stays by itself has no line end behind it.
theorem afterLineEnd?_eq_none_of_feed {t : Text} (h : afterBlankLines? ('\n' :: t) = none) :
    afterLineEnd? t = none := by
  have hsome : (afterBlankLines? ('\n' :: t)).isSome = (afterLineEnd? t).isSome :=
    isSome_afterBlankLines? rfl
  rw [← Option.isNone_iff_eq_none, ← Option.not_isSome, ← hsome, h]
  rfl

theorem not_infix_feeds_squeezeLineEnds (t : Text) : ¬['\n', '\n'] <:+: squeezeLineEnds t := by
  induction t using Mark.ofRest_induction length_lt_of_afterBlankLines? with
  | nil => simp
  | mark t rest hrest ih =>
    rw [squeezeLineEnds_of_some hrest, Text.pair_infix_cons_iff, not_or, not_and]
    exact ⟨fun _ => head?_squeezeLineEnds_ne (afterLineEnd?_eq_none_of_afterBlankLines? hrest), ih⟩
  | char c t hc ih =>
    rw [squeezeLineEnds_cons hc, Text.pair_infix_cons_iff, not_or, not_and]
    refine ⟨?_, ih⟩
    rintro rfl
    exact head?_squeezeLineEnds_ne (afterLineEnd?_eq_none_of_feed hc)

-- There is nothing to squeeze where no line feed stands in front of a line end.
theorem all_blankLines_eq_nil_iff {t : Text} :
    blankLines.all t = [] ↔ ¬['\n', '\n'] <:+: t ∧ ¬['\n', '\r', '\n'] <:+: t := by
  rw [blankLines, Mark.all_ofRest_eq_nil_iff suffix_of_afterBlankLines?]
  constructor
  · intro h
    refine ⟨?_, ?_⟩
    · rintro ⟨before, after, rfl⟩
      cases h ('\n' :: '\n' :: after) ⟨before, by simp⟩
    · rintro ⟨before, after, rfl⟩
      cases h ('\n' :: '\r' :: '\n' :: after) ⟨before, by simp⟩
  · rintro ⟨hfeeds, hreturn⟩ s hs
    refine Option.eq_none_iff_forall_not_mem.mpr fun rest hrest => ?_
    obtain ⟨second, first, ⟨hfirst, hsecond⟩, -⟩ := afterBlankLines?_eq_some_iff.mp hrest
    have hline : '\n' :: first <:+: t :=
      ((feed_cons_suffix_of_afterLineEnd? hfirst).trans hs).isInfix
    rcases afterLineEnd?_eq_some_iff.mp hsecond with rfl | rfl
    · exact hfeeds (.trans ⟨[], second, rfl⟩ hline)
    · exact hreturn (.trans ⟨[], second, rfl⟩ hline)

theorem squeezeLineEnds_eq_self_iff {t : Text} : squeezeLineEnds t = t ↔ blankLines.all t = [] := by
  refine Mark.replace_ofRest_eq_self_iff fun {t rest} h => ?_
  obtain ⟨second, first, ⟨hfirst, hsecond⟩, rfl⟩ := afterBlankLines?_eq_some_iff.mp h
  have hlt := length_lt_of_afterLineEnd? hfirst
  have hlt' := length_lt_of_afterLineEnd? hsecond
  have hle := length_dropLineEnds_le second
  rw [List.length_singleton]
  omega

section Stretch

-- A stretch without line feeds.
variable {s : Text} (h : '\n' ∉ s)
include h

theorem prefix_of_prefix_squeezeLineEnds {t : Text} (hs : s <+: squeezeLineEnds t) : s <+: t := by
  induction t using Mark.ofRest_induction length_lt_of_afterBlankLines? generalizing s with
  | nil => rwa [squeezeLineEnds_nil] at hs
  | mark t rest hrest ih =>
    rw [squeezeLineEnds_of_some hrest, Text.prefix_cons_iff_of_not_mem h] at hs
    rw [hs]
    exact List.nil_prefix
  | char c t hc ih =>
    rw [squeezeLineEnds_cons hc, List.prefix_cons_iff] at hs
    rcases hs with rfl | ⟨u, rfl, hu⟩
    · exact List.nil_prefix
    · rw [List.mem_cons, not_or] at h
      exact List.cons_prefix_cons.mpr ⟨rfl, ih h.2 hu⟩

theorem infix_of_infix_squeezeLineEnds {t : Text} (hs : s <:+: squeezeLineEnds t) : s <:+: t := by
  induction t using Mark.ofRest_induction length_lt_of_afterBlankLines? with
  | nil => rwa [squeezeLineEnds_nil] at hs
  | mark t rest hrest ih =>
    rw [squeezeLineEnds_of_some hrest, Text.infix_cons_iff_of_not_mem h] at hs
    exact (ih hs).trans (suffix_of_afterBlankLines? hrest).isInfix
  | char c t hc ih =>
    have hprefix : s <+: c :: squeezeLineEnds t → s <+: c :: t := by
      rw [← squeezeLineEnds_cons hc]
      exact prefix_of_prefix_squeezeLineEnds h
    rw [squeezeLineEnds_cons hc, List.infix_cons_iff] at hs
    exact List.infix_cons_iff.mpr (hs.imp hprefix ih)

end Stretch

-- A carriage return by itself, with a line feed in front and a run of line ends behind that begins with
-- another carriage return.
def StrayReturn (t : Text) : Prop :=
  "\n\r\r\n\n".toList <:+: t ∨ "\n\r\r\n\r\n".toList <:+: t

theorem StrayReturn.mono {s t : Text} (h : StrayReturn s) (hs : s <:+: t) : StrayReturn t :=
  h.imp (·.trans hs) (·.trans hs)

theorem strayReturn_iff {t : Text} :
    StrayReturn t ↔ ∃ before after, t = before ++ '\n' :: '\r' :: '\r' :: '\n' :: after ∧
      (afterLineEnd? after).isSome := by
  constructor
  · rintro (⟨before, rest, rfl⟩ | ⟨before, rest, rfl⟩)
    · exact ⟨before, '\n' :: rest, by simp, rfl⟩
    · exact ⟨before, '\r' :: '\n' :: rest, by simp, rfl⟩
  · rintro ⟨before, after, rfl, hafter⟩
    obtain ⟨rest, hrest⟩ := Option.isSome_iff_exists.mp hafter
    rcases afterLineEnd?_eq_some_iff.mp hrest with rfl | rfl
    · exact .inl ⟨before, rest, by simp⟩
    · exact .inr ⟨before, rest, by simp⟩

-- A run of line ends begins right behind the carriage return.
theorem exists_of_prefix_squeezeLineEnds {t : Text} (h : afterLineEnd? t = none)
    (hs : ['\r', '\n'] <+: squeezeLineEnds t) :
    ∃ after, t = '\r' :: '\r' :: '\n' :: after ∧ (afterLineEnd? after).isSome := by
  cases t with
  | nil => simp at hs
  | cons c t =>
    rw [squeezeLineEnds_cons (afterBlankLines?_eq_none h), List.cons_prefix_cons,
      List.singleton_prefix_iff_head?_eq_some, head?_squeezeLineEnds] at hs
    obtain ⟨rfl, hhead⟩ := hs
    have hfeed : t.head? ≠ some '\n' := by
      intro ht
      obtain ⟨u, rfl⟩ := List.head?_eq_some_iff.mp ht
      cases h
    split at hhead
    · next hrun =>
      obtain ⟨rest, hrest⟩ := Option.isSome_iff_exists.mp hrun
      obtain ⟨second, first, ⟨hfirst, hsecond⟩, -⟩ := afterBlankLines?_eq_some_iff.mp hrest
      rcases afterLineEnd?_eq_some_iff.mp hfirst with rfl | rfl
      · exact absurd rfl hfeed
      · exact ⟨first, rfl, by rw [hsecond]; rfl⟩
    · exact absurd hhead hfeed

theorem strayReturn_of_infix_squeezeLineEnds {t : Text}
    (h : ['\n', '\r', '\n'] <:+: squeezeLineEnds t) : StrayReturn t := by
  have hfront : ∀ {u : Text}, afterLineEnd? u = none → ['\r', '\n'] <+: squeezeLineEnds u →
      StrayReturn ('\n' :: u) := by
    intro u hu hs
    obtain ⟨after, rfl, hafter⟩ := exists_of_prefix_squeezeLineEnds hu hs
    exact strayReturn_iff.mpr ⟨[], after, rfl, hafter⟩
  induction t using Mark.ofRest_induction length_lt_of_afterBlankLines? with
  | nil => simp at h
  | mark t rest hrest ih =>
    rw [squeezeLineEnds_of_some hrest, List.infix_cons_iff, List.cons_prefix_cons] at h
    rcases h with ⟨-, h⟩ | h
    · have hend := afterLineEnd?_eq_none_of_afterBlankLines? hrest
      exact (hfront hend h).mono (feed_cons_suffix_of_afterBlankLines? hrest).isInfix
    · exact (ih h).mono (suffix_of_afterBlankLines? hrest).isInfix
  | char c t hc ih =>
    rw [squeezeLineEnds_cons hc, List.infix_cons_iff, List.cons_prefix_cons] at h
    rcases h with ⟨rfl, h⟩ | h
    · exact hfront (afterLineEnd?_eq_none_of_feed hc) h
    · exact (ih h).mono (List.suffix_cons c t).isInfix

-- A text that ends with a line feed does so when its line ends are squeezed.
theorem getLast?_squeezeLineEnds {t : Text} (h : t.getLast? = some '\n') :
    (squeezeLineEnds t).getLast? = some '\n' := by
  induction t using Mark.ofRest_induction length_lt_of_afterBlankLines? with
  | nil => cases h
  | mark t rest hrest ih =>
    rw [squeezeLineEnds_of_some hrest]
    cases rest with
    | nil => rw [squeezeLineEnds_nil]; rfl
    | cons c rest =>
      obtain ⟨lead, rfl⟩ := suffix_of_afterBlankLines? hrest
      rw [List.getLast?_append_of_ne_nil _ (List.cons_ne_nil c rest)] at h
      rw [List.getLast?_cons, ih h]
      rfl
  | char c t hc ih =>
    rw [squeezeLineEnds_cons hc]
    cases t with
    | nil => rwa [squeezeLineEnds_nil]
    | cons d t =>
      rw [List.getLast?_cons_cons] at h
      rw [List.getLast?_cons, ih h]
      rfl

theorem infix_squeezeLineEnds_iff {t : Text} :
    ['\n', '\r', '\n'] <:+: squeezeLineEnds t ↔ StrayReturn t := by
  refine ⟨strayReturn_of_infix_squeezeLineEnds, fun h => ?_⟩
  obtain ⟨before, after, rfl, hafter⟩ := strayReturn_iff.mp h
  -- the stray carriage return parts the text, with a line feed on either side
  have hpart := squeezeLineEnds_append_cons (c := '\r') (t := '\r' :: '\n' :: after) (by decide) rfl
    (before ++ ['\n'])
  have hbefore := getLast?_squeezeLineEnds (t := before ++ ['\n']) List.getLast?_concat
  obtain ⟨init, hinit⟩ := List.getLast?_eq_some_iff.mp hbefore
  have hrun : (afterBlankLines? ('\r' :: '\n' :: after)).isSome := by
    have hfirst : afterLineEnd? ('\r' :: '\n' :: after) = some after := rfl
    rwa [isSome_afterBlankLines? hfirst]
  obtain ⟨rest, hrest⟩ := Option.isSome_iff_exists.mp hrun
  rw [List.append_cons, hpart, hinit, squeezeLineEnds_of_some hrest]
  exact ⟨init, squeezeLineEnds rest, by simp⟩

theorem strayReturn_squeezeBlanks {t : Text} : StrayReturn (squeezeBlanks t) ↔ StrayReturn t := by
  have hspacing : ∀ s ∈ ["\n\r\r\n\n".toList, "\n\r\r\n\r\n".toList], ∀ c, Spacing c → c ∉ s := by
    rintro s hs c (rfl | rfl)
    · revert s; decide
    · revert s; decide
  exact or_congr (infix_squeezeBlanks_iff (hspacing _ (by simp)) t)
    (infix_squeezeBlanks_iff (hspacing _ (by simp)) t)

theorem allBlank_evenBlanks {t : Text} (h : Text.allBlank t) : Text.allBlank (evenBlanks t) := by
  rw [← Text.solid_eq_nil_iff, solid_evenBlanks]
  exact Text.solid_eq_nil_iff.mpr h

-- The ends of a text can be trimmed before its blanks are evened out.
theorem trim_evenBlanks (t : Text) : Text.trim (evenBlanks t) = evenBlanks (Text.trim t) := by
  obtain ⟨lead, tail, heq, hlead, htail⟩ := Text.exists_trim_append t
  obtain ⟨hfirst, hlast⟩ := Text.trim_eq_self_iff.mp (Text.trim_trim t)
  by_cases hnil : Text.trim t = []
  · rw [hnil, evenBlanks_nil, Text.trim_eq_nil_iff]
    exact allBlank_evenBlanks (Text.trim_eq_nil_iff.mp hnil)
  · have hhead : ∀ c ∈ (Text.trim t ++ tail).head?, Text.isBlank c = false := by
      rwa [List.head?_append_of_ne_nil _ hnil]
    have hcore : Text.trim (evenBlanks (Text.trim t)) = evenBlanks (Text.trim t) := by
      refine Text.trim_eq_self_iff.mpr ⟨?_, ?_⟩
      · obtain ⟨c, u, hcu⟩ := List.exists_cons_of_ne_nil hnil
        rw [hcu] at hfirst ⊢
        rwa [evenBlanks_cons (hfirst c rfl)]
      · obtain ⟨u, c, huc⟩ := (List.eq_nil_or_concat' (Text.trim t)).resolve_left hnil
        rw [huc, List.getLast?_concat] at hlast
        rw [huc, evenBlanks_append_cons (hlast c rfl), evenBlanks_nil, List.getLast?_concat]
        exact hlast
    conv_lhs => rw [← heq]
    rw [evenBlanks_append_of_head? lead hhead, evenBlanks_append_of_getLast? hlast,
      Text.trim_append_left (allBlank_evenBlanks hlead),
      Text.trim_append_right _ (allBlank_evenBlanks htail), hcore]

theorem tidy_eq_evenBlanks (t : Text) : tidy t = evenBlanks (Text.trim (withoutIfTags t)) := by
  rw [tidy_eq, tidyWithin, trim_evenBlanks]

-- The form in which tidying leaves the blanks of a statement.
structure Tidied (t : Text) : Prop where
  tab : '\t' ∉ t
  spaces : ¬[' ', ' '] <:+: t
  feeds : ¬['\n', '\n'] <:+: t
  trimmed : Text.trim t = t

theorem tidied_tidy (t : Text) : Tidied (tidy t) where
  tab h := by
    rw [tidy_eq_evenBlanks, evenBlanks_eq] at h
    rcases Mark.mem_of_mem_replace (Mark.leavesEnd_ofRest suffix_of_afterBlankLines?) h with h | h
    · exact tab_not_mem_squeezeBlanks _ h
    · obtain ⟨_, -, h⟩ := h
      exact absurd h (by decide)
  spaces h := by
    rw [tidy_eq_evenBlanks, evenBlanks_eq] at h
    exact not_infix_spaces_squeezeBlanks _ (infix_of_infix_squeezeLineEnds (by decide) h)
  feeds := by
    rw [tidy_eq_evenBlanks, evenBlanks_eq]
    exact not_infix_feeds_squeezeLineEnds _
  trimmed := by rw [tidy_eq, Text.trim_trim]

theorem infix_tidy_iff {t : Text} :
    ['\n', '\r', '\n'] <:+: tidy t ↔ StrayReturn (Text.trim (withoutIfTags t)) := by
  rw [tidy_eq_evenBlanks, evenBlanks_eq, infix_squeezeLineEnds_iff, strayReturn_squeezeBlanks]

-- Every carriage return stands in front of a line feed.
def PairsReturns (t : Text) : Prop :=
  ∀ u, '\r' :: u <:+ t → u.head? = some '\n'

instance (t : Text) : Decidable (PairsReturns t) :=
  decidable_of_iff (∀ s ∈ t.tails, s.head? = some '\r' → s.tail.head? = some '\n') <| by
    simp only [List.mem_tails, PairsReturns]
    constructor
    · exact fun h u hu => h ('\r' :: u) hu rfl
    · intro h s hs hhead
      obtain ⟨u, rfl⟩ := List.head?_eq_some_iff.mp hhead
      exact h u hs

theorem pairsReturns_withoutIfTags {t : Text} (h : PairsReturns t) :
    PairsReturns (withoutIfTags t) := by
  induction t using Mark.ofRest_induction length_lt_of_afterIfTag? with
  | nil => rwa [withoutIfTags_nil]
  | mark t rest hrest ih =>
    rw [withoutIfTags_of_afterIfTag? hrest]
    exact ih fun u hu => h u (hu.trans (suffix_of_afterIfTag? hrest))
  | char c t hc ih =>
    rw [withoutIfTags_cons hc]
    intro u hu
    rcases List.suffix_cons_iff.mp hu with heq | hu
    · obtain ⟨rfl, rfl⟩ := List.cons.inj heq
      obtain ⟨v, rfl⟩ := List.head?_eq_some_iff.mp (h t (List.suffix_refl _))
      rw [withoutIfTags_cons (afterIfTag?_eq_none (by decide) v)]
      rfl
    · exact ih (fun v hv => h v (hv.trans (List.suffix_cons c t))) u hu

theorem PairsReturns.not_strayReturn {t : Text} (h : PairsReturns t) : ¬StrayReturn t := by
  intro hstray
  obtain ⟨before, after, rfl, -⟩ := strayReturn_iff.mp hstray
  have hsecond := h ('\r' :: '\n' :: after) ⟨before ++ ['\n'], by simp⟩
  cases hsecond

-- What tidying makes of a text: all characters but blanks and tags are kept, and no blanks are left
-- that say nothing.
structure TidyNormal (t : Text) : Prop where
  solid : Text.solid (tidy t) = Text.solid (withoutIfTags t)
  tab : '\t' ∉ tidy t
  spaces : ¬[' ', ' '] <:+: tidy t
  feeds : ¬['\n', '\n'] <:+: tidy t
  first : ∀ c ∈ (tidy t).head?, Text.isBlank c = false
  last : ∀ c ∈ (tidy t).getLast?, Text.isBlank c = false
  returns : PairsReturns t → ¬['\n', '\r', '\n'] <:+: tidy t

-- Tidying leaves no tab, no two spaces or line feeds in a row and no blank at either end, and no blank
-- line of any kind if every carriage return stands in front of a line feed.
theorem tidy_normal (t : Text) : TidyNormal t := by
  obtain ⟨htab, hspaces, hfeeds, htrimmed⟩ := tidied_tidy t
  obtain ⟨hfirst, hlast⟩ := Text.trim_eq_self_iff.mp htrimmed
  refine ⟨solid_tidy t, htab, hspaces, hfeeds, hfirst, hlast, fun hpairs => ?_⟩
  rw [infix_tidy_iff]
  exact fun h => (pairsReturns_withoutIfTags hpairs).not_strayReturn (h.mono (Text.isInfix_trim _))

-- The run of line ends in the middle is found only when the tag is out.
theorem tidy_normal_tagged :
    let t := "\r\n\ta \t b\r\n<if x>\r\n\r\n c \n".toList
    PairsReturns t ∧ tidy t = "a b\n c".toList ∧ ¬['\n', '\r', '\n'] <:+: tidy t := by
  intro t
  have hpairs : PairsReturns t := by decide +kernel
  exact ⟨hpairs, by decide +kernel, (tidy_normal t).returns hpairs⟩

end Statement

end SqlPreview
