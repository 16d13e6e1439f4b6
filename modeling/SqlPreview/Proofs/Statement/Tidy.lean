import SqlPreview.Proofs.Statement.IfTag
import SqlPreview.Proofs.Text.Split

namespace SqlPreview

namespace Text

theorem ne_of_isBlank {c d : Char} (hc : isBlank c = false) (hd : isBlank d) : c ≠ d := by
  rintro rfl
  rw [hc] at hd
  cases hd

-- The characters of a text that are no blanks.
def solid (t : Text) : Text :=
  t.filter fun c => !isBlank c

@[simp]
theorem solid_append (s t : Text) : solid (s ++ t) = solid s ++ solid t :=
  List.filter_append s t

theorem solid_cons_of_isBlank {c : Char} (h : isBlank c) (t : Text) : solid (c :: t) = solid t :=
  List.filter_cons_of_neg (by simp [h])

theorem solid_cons_congr (c : Char) {s t : Text} (h : solid s = solid t) :
    solid (c :: s) = solid (c :: t) := by
  simp only [solid] at h ⊢
  rw [List.filter_cons, List.filter_cons, h]

theorem solid_eq_nil_iff {t : Text} : solid t = [] ↔ allBlank t := by
  rw [allBlank_iff, solid, List.filter_eq_nil_iff]
  simp

theorem solid_eq_self_iff {t : Text} : solid t = t ↔ ∀ c ∈ t, isBlank c = false := by
  rw [solid, List.filter_eq_self]
  simp

theorem solid_trim (t : Text) : solid (trim t) = solid t := by
  obtain ⟨lead, tail, heq, hlead, htail⟩ := exists_trim_append t
  conv_rhs => rw [← heq]
  rw [solid_append, solid_append, solid_eq_nil_iff.mpr hlead, solid_eq_nil_iff.mpr htail, List.nil_append,
    List.append_nil]

theorem mem_solid {c : Char} {t : Text} (h : isBlank c = false) : c ∈ solid t ↔ c ∈ t := by
  simp [solid, List.mem_filter, h]

theorem count_solid {c : Char} (h : isBlank c = false) (t : Text) : (solid t).count c = t.count c :=
  List.count_filter (by simp [h])

theorem dropWhile_append_cons {p : Char → Bool} {c : Char} (h : p c = false) (s t : Text) :
    (s ++ c :: t).dropWhile p = s.dropWhile p ++ c :: t := by
  rw [List.dropWhile_append]
  split
  · next hs => rw [List.isEmpty_iff.mp hs, List.dropWhile_cons_of_neg (by simp [h])]; rfl
  · rfl

theorem trimStart_append_cons {c : Char} (h : isBlank c = false) (s t : Text) :
    trimStart (s ++ c :: t) = trimStart s ++ c :: t :=
  dropWhile_append_cons h s t

theorem trimEnd_append_cons {c : Char} (h : isBlank c = false) (s t : Text) :
    trimEnd (s ++ c :: t) = s ++ c :: trimEnd t := by
  have hreverse := dropWhile_append_cons h t.reverse s.reverse
  rw [trimEnd, List.reverse_append, List.reverse_cons, List.append_assoc, List.singleton_append,
    hreverse, trimEnd]
  simp

-- Trimming takes nothing off a stretch that neither begins nor ends with a blank.
theorem isInfix_trim_of_isInfix {s t : Text} (hfirst : ∀ c ∈ s.head?, isBlank c = false)
    (hlast : ∀ c ∈ s.getLast?, isBlank c = false) (h : s <:+: t) : s <:+: trim t := by
  obtain ⟨before, after, rfl⟩ := h
  cases s with
  | nil => exact List.nil_infix
  | cons c s =>
    obtain ⟨init, d, hd⟩ := (List.eq_nil_or_concat' (c :: s)).resolve_left (by simp)
    have hend : isBlank d = false := hlast d (by simp [hd])
    have hback : trimEnd (trimStart before ++ (init ++ d :: after)) =
        trimStart before ++ (init ++ d :: trimEnd after) := by
      rw [← List.append_assoc, trimEnd_append_cons hend, List.append_assoc]
    have hsplit : ∀ u, c :: (s ++ u) = init ++ d :: u := fun u => by
      rw [← List.cons_append, hd, List.append_assoc, List.singleton_append]
    refine ⟨trimStart before, trimEnd after, ?_⟩
    rw [List.append_assoc, List.append_assoc, List.cons_append, List.cons_append, trim,
      trimStart_append_cons (hfirst c rfl), hsplit, hsplit, hback]

end Text

namespace Statement

-- The text with its blanks evened out, that is, as tidying leaves it when there are no tags in it and
-- its ends are not trimmed.
def evenBlanks (t : Text) : Text :=
  blankLines.replace (fun _ => ['\n']) (squeezeBlanks t)

-- Every run of two line ends or more becomes one line feed.
def squeezeLineEnds (t : Text) : Text :=
  blankLines.replace (fun _ => ['\n']) t

theorem evenBlanks_eq (t : Text) : evenBlanks t = squeezeLineEnds (squeezeBlanks t) :=
  rfl

-- A part of a statement as tidying leaves it.
def tidyWithin (t : Text) : Text :=
  evenBlanks (withoutIfTags t)

theorem tidy_eq (t : Text) : tidy t = Text.trim (tidyWithin t) :=
  rfl

theorem exists_of_afterLineEnd? {t rest : Text} (h : afterLineEnd? t = some rest) :
    ∃ lineEnd, t = lineEnd ++ rest ∧ Text.allBlank lineEnd := by
  unfold afterLineEnd? at h
  split at h
  · cases h
    exact ⟨['\n'], rfl, by decide⟩
  · cases h
    exact ⟨['\r', '\n'], rfl, by decide⟩
  · cases h

theorem dropLineEnds_of_some {t rest : Text} (h : afterLineEnd? t = some rest) :
    dropLineEnds t = dropLineEnds rest := by
  rw [dropLineEnds]
  split
  · next behind hb =>
    cases h.symm.trans hb
    rfl
  · next hb => cases h.symm.trans hb

theorem dropLineEnds_of_none {t : Text} (h : afterLineEnd? t = none) : dropLineEnds t = t := by
  rw [dropLineEnds]
  split
  · next hb => cases h.symm.trans hb
  · rfl

theorem exists_dropLineEnds_append (t : Text) :
    ∃ lineEnds, t = lineEnds ++ dropLineEnds t ∧ Text.allBlank lineEnds := by
  induction t using dropLineEnds.induct with
  | case1 t rest h ih =>
    obtain ⟨lineEnd, ht, hblank⟩ := exists_of_afterLineEnd? h
    obtain ⟨lineEnds, hrest, hblanks⟩ := ih
    refine ⟨lineEnd ++ lineEnds, ?_, by rw [Text.allBlank_append, hblank, hblanks]; rfl⟩
    rw [dropLineEnds_of_some h, List.append_assoc, ← hrest, ← ht]
  | case2 t h => exact ⟨[], by rw [dropLineEnds_of_none h]; rfl, rfl⟩

theorem exists_of_afterBlankLines? {t rest : Text} (h : afterBlankLines? t = some rest) :
    ∃ lineEnds, t = lineEnds ++ rest ∧ Text.allBlank lineEnds := by
  simp only [afterBlankLines?, Option.map_eq_some_iff, Option.bind_eq_some_iff] at h
  obtain ⟨second, ⟨first, hfirst, hsecond⟩, rfl⟩ := h
  obtain ⟨s₁, rfl, h₁⟩ := exists_of_afterLineEnd? hfirst
  obtain ⟨s₂, rfl, h₂⟩ := exists_of_afterLineEnd? hsecond
  obtain ⟨s₃, hrest, h₃⟩ := exists_dropLineEnds_append second
  refine ⟨s₁ ++ (s₂ ++ s₃), ?_, by simp [Text.allBlank_append, h₁, h₂, h₃]⟩
  rw [List.append_assoc, List.append_assoc, ← hrest]

theorem suffix_of_afterBlankLines? {t rest : Text} (h : afterBlankLines? t = some rest) :
    rest <:+ t := by
  obtain ⟨lineEnds, rfl, -⟩ := exists_of_afterBlankLines? h
  exact List.suffix_append lineEnds rest

@[simp]
theorem squeezeLineEnds_nil : squeezeLineEnds [] = [] :=
  Mark.replace_nil _ _

theorem squeezeLineEnds_of_some {t rest : Text} (h : afterBlankLines? t = some rest) :
    squeezeLineEnds t = '\n' :: squeezeLineEnds rest :=
  Mark.replace_ofRest_of_some h _

theorem squeezeLineEnds_cons {c : Char} {t : Text} (h : afterBlankLines? (c :: t) = none) :
    squeezeLineEnds (c :: t) = c :: squeezeLineEnds t :=
  Mark.replace_ofRest_of_none h _

theorem solid_squeezeBlanks (t : Text) : Text.solid (squeezeBlanks t) = Text.solid t := by
  induction t with
  | nil => rfl
  | cons c t ih =>
    rw [squeezeBlanks]
    split
    · next hc =>
      have hblank : Text.isBlank c := by rcases hc with rfl | rfl <;> decide
      rw [Text.solid_cons_of_isBlank hblank, ← ih]
      split
      · next rest heq => rw [heq]
      · exact Text.solid_cons_of_isBlank (by decide) _
    · exact Text.solid_cons_congr c ih

theorem solid_squeezeLineEnds (t : Text) : Text.solid (squeezeLineEnds t) = Text.solid t := by
  induction t using Mark.ofRest_induction length_lt_of_afterBlankLines? with
  | nil => rw [squeezeLineEnds_nil]
  | mark t rest hrest ih =>
    obtain ⟨lineEnds, rfl, hblank⟩ := exists_of_afterBlankLines? hrest
    rw [squeezeLineEnds_of_some hrest, Text.solid_cons_of_isBlank (by decide), ih, Text.solid_append,
      Text.solid_eq_nil_iff.mpr hblank, List.nil_append]
  | char c t hr ih =>
    rw [squeezeLineEnds_cons hr]
    exact Text.solid_cons_congr c ih

theorem solid_evenBlanks (t : Text) : Text.solid (evenBlanks t) = Text.solid t := by
  rw [evenBlanks_eq, solid_squeezeLineEnds, solid_squeezeBlanks]

-- Apart from the blanks, tidying takes `if` tags out and does no more.
theorem solid_tidy (t : Text) : Text.solid (tidy t) = Text.solid (withoutIfTags t) := by
  rw [tidy_eq, Text.solid_trim, tidyWithin, solid_evenBlanks]

theorem solid_tidyWithin (t : Text) : Text.solid (tidyWithin t) = Text.solid (withoutIfTags t) := by
  rw [tidyWithin, solid_evenBlanks]

theorem afterLineEnd?_eq_none {c : Char} (hc : Text.isBlank c = false) (t : Text) :
    afterLineEnd? (c :: t) = none := by
  have hfeed : c ≠ '\n' := Text.ne_of_isBlank hc (by decide)
  have hreturn : c ≠ '\r' := Text.ne_of_isBlank hc (by decide)
  simp [afterLineEnd?, hfeed, hreturn]

section LineEnd

-- A character that stands in no line end.
variable {c : Char} {t : Text} (hfeed : c ≠ '\n') (hline : afterLineEnd? (c :: t) = none)
include hfeed hline

theorem afterLineEnd?_append_cons (s : Text) :
    afterLineEnd? (s ++ c :: t) = (afterLineEnd? s).map (· ++ c :: t) := by
  match s with
  | [] => exact hline
  | [d] =>
    by_cases hd : d = '\n'
    · simp [afterLineEnd?, hd]
    · simp [afterLineEnd?, hd, hfeed]
  | d :: e :: s =>
    by_cases hd : d = '\n'
    · simp [afterLineEnd?, hd]
    · by_cases hr : d = '\r'
      · by_cases he : e = '\n'
        · simp [afterLineEnd?, hr, he]
        · simp [afterLineEnd?, hr, he]
      · simp [afterLineEnd?, hd, hr]

theorem dropLineEnds_append_cons (s : Text) :
    dropLineEnds (s ++ c :: t) = dropLineEnds s ++ c :: t := by
  have happend := afterLineEnd?_append_cons hfeed hline
  induction s using dropLineEnds.induct with
  | case1 s rest h ih => rw [dropLineEnds_of_some (by rw [happend, h]; rfl), ih, dropLineEnds_of_some h]
  | case2 s h => rw [dropLineEnds_of_none (by rw [happend, h]; rfl), dropLineEnds_of_none h]

theorem afterBlankLines?_append_cons (s : Text) :
    afterBlankLines? (s ++ c :: t) = (afterBlankLines? s).map (· ++ c :: t) := by
  simp only [afterBlankLines?, afterLineEnd?_append_cons hfeed hline]
  cases afterLineEnd? s with
  | none => rfl
  | some first =>
    simp only [Option.map_some, Option.bind_some, afterLineEnd?_append_cons hfeed hline]
    cases afterLineEnd? first with
    | none => rfl
    | some second => simp only [Option.map_some, dropLineEnds_append_cons hfeed hline]

-- So it parts the text.
theorem squeezeLineEnds_append_cons (s : Text) :
    squeezeLineEnds (s ++ c :: t) = squeezeLineEnds s ++ c :: squeezeLineEnds t := by
  have happend := afterBlankLines?_append_cons hfeed hline
  exact Mark.replace_append_cons suffix_of_afterBlankLines? _ (happend []) fun u _ => happend u

end LineEnd

section Solid

variable {c : Char} (hc : Text.isBlank c = false)
include hc

theorem mem_of_mem_tidy {t : Text} (h : c ∈ tidy t) : c ∈ t := by
  rw [← Text.mem_solid hc, solid_tidy, Text.mem_solid hc] at h
  exact mem_of_mem_withoutIfTags h

theorem count_tidy (t : Text) : (tidy t).count c = (withoutIfTags t).count c := by
  rw [← Text.count_solid hc, solid_tidy, Text.count_solid hc]

theorem count_tidyWithin (t : Text) : (tidyWithin t).count c = (withoutIfTags t).count c := by
  rw [← Text.count_solid hc, solid_tidyWithin, Text.count_solid hc]

theorem squeezeBlanks_append_cons (s t : Text) :
    squeezeBlanks (s ++ c :: t) = squeezeBlanks s ++ c :: squeezeBlanks t := by
  have hspace : c ≠ ' ' := Text.ne_of_isBlank hc (by decide)
  have htab : c ≠ '\t' := Text.ne_of_isBlank hc (by decide)
  induction s with
  | nil => simp [squeezeBlanks, hspace, htab]
  | cons d s ih =>
    rw [List.cons_append, squeezeBlanks, squeezeBlanks, ih]
    split
    · cases squeezeBlanks s with
      | nil => simp [hspace]
      | cons e rest =>
        by_cases he : e = ' '
        · simp [he]
        · simp [he]
    · rfl

theorem evenBlanks_append_cons (s t : Text) :
    evenBlanks (s ++ c :: t) = evenBlanks s ++ c :: evenBlanks t := by
  have hfeed : c ≠ '\n' := Text.ne_of_isBlank hc (by decide)
  rw [evenBlanks_eq, squeezeBlanks_append_cons hc,
    squeezeLineEnds_append_cons hfeed (afterLineEnd?_eq_none hc _)]
  rfl

-- A character of which no tag is made parts a statement, unless a tag goes on from one side to the other.
theorem tidyWithin_append_cons (htag : c ∉ "</if".toList) (hword : Text.isWord c = false) {s t : Text}
    (h : ClosesIfTags s ∨ '>' ∉ c :: t) :
    tidyWithin (s ++ c :: t) = tidyWithin s ++ c :: tidyWithin t := by
  rw [tidyWithin, withoutIfTags_append_cons htag hword h, evenBlanks_append_cons hc]
  rfl

end Solid

@[simp]
theorem evenBlanks_nil : evenBlanks [] = [] :=
  Mark.replace_nil _ _

theorem evenBlanks_cons {c : Char} (hc : Text.isBlank c = false) (t : Text) :
    evenBlanks (c :: t) = c :: evenBlanks t := by
  have happend := evenBlanks_append_cons hc [] t
  rwa [evenBlanks_nil] at happend

-- A run without blanks stays as it is.
theorem evenBlanks_append_run {run : Text} (h : ∀ c ∈ run, Text.isBlank c = false) (t : Text) :
    evenBlanks (run ++ t) = run ++ evenBlanks t := by
  induction run with
  | nil => rfl
  | cons c run ih =>
    rw [List.forall_mem_cons] at h
    rw [List.cons_append, evenBlanks_cons h.1, ih h.2, List.cons_append]

theorem evenBlanks_append_of_head? (s : Text) {t : Text}
    (h : ∀ c ∈ t.head?, Text.isBlank c = false) : evenBlanks (s ++ t) = evenBlanks s ++ evenBlanks t := by
  cases t with
  | nil => rw [evenBlanks_nil, List.append_nil, List.append_nil]
  | cons c t => rw [evenBlanks_append_cons (h c rfl), evenBlanks_cons (h c rfl)]

theorem evenBlanks_append_of_getLast? {s : Text} (h : ∀ c ∈ s.getLast?, Text.isBlank c = false)
    (t : Text) : evenBlanks (s ++ t) = evenBlanks s ++ evenBlanks t := by
  rcases List.eq_nil_or_concat' s with rfl | ⟨init, c, rfl⟩
  · rw [evenBlanks_nil, List.nil_append, List.nil_append]
  · have hc := h c List.getLast?_concat
    rw [List.append_assoc, List.singleton_append, evenBlanks_append_cons hc, evenBlanks_append_cons hc,
      evenBlanks_nil, List.append_assoc, List.singleton_append]

-- The front of a statement, if tidying leaves it as it is, takes no part in how the rest is tidied.
theorem tidy_append_of_evenBlanks {s : Text} (hne : s ≠ []) (htag : '<' ∉ s) (heven : evenBlanks s = s)
    (htrim : Text.trim s = s) (t : Text) : tidy (s ++ t) = s ++ Text.trimEnd (tidyWithin t) := by
  obtain ⟨hfirst, hlast⟩ := Text.trim_eq_self_iff.mp htrim
  have hstart : ∀ u, Text.trimStart (s ++ u) = s ++ u := by
    intro u
    obtain ⟨c, s, rfl⟩ := List.exists_cons_of_ne_nil hne
    exact List.dropWhile_cons_of_neg (by simp [hfirst c rfl])
  have hend : ∀ u, Text.trimEnd (s ++ u) = s ++ Text.trimEnd u := by
    intro u
    obtain ⟨init, c, rfl⟩ := (List.eq_nil_or_concat' s).resolve_left hne
    rw [List.append_assoc, List.singleton_append, Text.trimEnd_append_cons
      (hlast c List.getLast?_concat), List.append_assoc, List.singleton_append]
  rw [tidy_eq, tidyWithin, withoutIfTags_append_of_not_mem htag, evenBlanks_append_of_getLast? hlast,
    heven, Text.trim, hstart, hend, tidyWithin]

theorem head?_squeezeBlanks_cons (c : Char) (t : Text) :
    (squeezeBlanks (c :: t)).head? = some (if c = ' ' ∨ c = '\t' then ' ' else c) := by
  rw [squeezeBlanks]
  split
  · split <;> rfl
  · rfl

-- A space in front of the rest stays, unless nothing but blanks is left behind it.
theorem head?_trimEnd_tidyWithin_space (t : Text) :
    ∀ c ∈ (Text.trimEnd (tidyWithin (' ' :: t))).head?, c = ' ' := by
  obtain ⟨v, hv⟩ := List.head?_eq_some_iff.mp (head?_squeezeBlanks_cons ' ' (withoutIfTags t))
  have hspace : tidyWithin (' ' :: t) = ' ' :: squeezeLineEnds v := by
    rw [tidyWithin, withoutIfTags_cons (afterIfTag?_eq_none (by decide) t), evenBlanks_eq, hv]
    exact squeezeLineEnds_cons rfl
  obtain ⟨tail, htail, -⟩ := Text.exists_trimEnd_append (tidyWithin (' ' :: t))
  intro c hc
  obtain ⟨u, hu⟩ := List.head?_eq_some_iff.mp hc
  rw [hu, hspace] at htail
  exact (List.cons.inj htail).1

-- A run without blanks is found in the tidied statement, if there are no tags around.
theorem isInfix_tidy {s run t : Text} (hs : '<' ∉ s) (hrun : ∀ c ∈ run, Text.isBlank c = false)
    (htag : '<' ∉ run) (ht : '<' ∉ t) : run <:+: tidy (s ++ (run ++ t)) := by
  have hnone : '<' ∉ s ++ (run ++ t) := by simp [hs, htag, ht]
  rw [tidy_eq, tidyWithin, withoutIfTags_of_not_mem hnone]
  refine Text.isInfix_trim_of_isInfix (fun c hc => hrun c (List.mem_of_mem_head? hc))
    (fun c hc => hrun c (List.mem_of_mem_getLast? hc)) ?_
  cases run with
  | nil => exact List.nil_infix
  | cons c run =>
    obtain ⟨hc, hrest⟩ := List.forall_mem_cons.mp hrun
    rw [List.cons_append, evenBlanks_append_cons hc, evenBlanks_append_run hrest, ← List.cons_append]
    exact List.infix_append' _ _ _

-- A quoted value is found as it is tidied by itself, unless a tag that begins in it ends behind it.
theorem isInfix_tidy_quoted_iff {s value t : Text} (hs : '<' ∉ s) (ht : '<' ∉ t) :
    '\x27' :: (tidyWithin value ++ ['\x27']) <:+: tidy (s ++ '\x27' :: (value ++ '\x27' :: t)) ↔
      ClosesIfTags value ∨ '>' ∉ t := by
  have hquote : Text.isBlank '\x27' = false := by decide
  have htag : '\x27' ∉ "</if".toList := by decide
  have hword : Text.isWord '\x27' = false := by decide
  have hfront : tidyWithin (s ++ '\x27' :: (value ++ '\x27' :: t)) =
      tidyWithin s ++ '\x27' :: tidyWithin (value ++ '\x27' :: t) :=
    tidyWithin_append_cons hquote htag hword (.inl (closesIfTags_of_not_mem hs))
  constructor
  · intro h
    refine Classical.byContradiction fun hopen => ?_
    rw [not_or, Classical.not_not] at hopen
    -- The tag takes the closing quote with it, and so leaves too few angle brackets for the value.
    have hangle : Text.isBlank '<' = false := by decide
    have hne : '\x27' ≠ '<' := by decide
    have hfewer := count_withoutIfTags_append_cons_lt htag hword hopen.1 hopen.2 ht
    have hquoted : ('\x27' :: (tidyWithin value ++ ['\x27'])).count '<' =
        (withoutIfTags value).count '<' := by
      rw [List.count_cons_of_ne hne, List.count_append, count_tidyWithin hangle]
      rfl
    have htotal : (tidy (s ++ '\x27' :: (value ++ '\x27' :: t))).count '<' =
        (withoutIfTags (value ++ '\x27' :: t)).count '<' := by
      rw [count_tidy hangle, withoutIfTags_append_of_not_mem hs,
        withoutIfTags_cons (afterIfTag?_eq_none hne _), List.count_append, List.count_eq_zero.mpr hs,
        List.count_cons_of_ne hne, Nat.zero_add]
    have hcount := h.sublist.count_le '<'
    omega
  · intro h
    have hvalue : tidyWithin (value ++ '\x27' :: t) = tidyWithin value ++ '\x27' :: tidyWithin t :=
      tidyWithin_append_cons hquote htag hword (h.imp_right fun ht => by simpa using ht)
    rw [tidy_eq, hfront, hvalue]
    refine Text.isInfix_trim_of_isInfix (s := '\x27' :: (tidyWithin value ++ ['\x27']))
      (fun c hc => ?_) (fun c hc => ?_) ⟨tidyWithin s, tidyWithin t, by simp⟩
    · cases hc
      exact hquote
    · rw [← List.cons_append, List.getLast?_concat] at hc
      cases hc
      exact hquote

theorem squeezeBlanks_eq_self {t : Text} (htab : '\t' ∉ t) (hpair : ¬[' ', ' '] <:+: t) :
    squeezeBlanks t = t := by
  induction t with
  | nil => rfl
  | cons c t ih =>
    rw [List.mem_cons, not_or] at htab
    rw [squeezeBlanks, ih htab.2 fun h => hpair (h.trans (List.suffix_cons c t).isInfix)]
    split
    · next hc =>
      have hspace : c = ' ' := hc.resolve_right (Ne.symm htab.1)
      subst hspace
      split
      · next rest => exact absurd ⟨[], rest, rfl⟩ hpair
      · rfl
    · rfl

-- A text in which tidying finds nothing to do.
theorem tidyWithin_eq_self {t : Text} (htags : ifTag.all t = []) (htab : '\t' ∉ t)
    (hpair : ¬[' ', ' '] <:+: t) (hlines : blankLines.all t = []) : tidyWithin t = t := by
  rw [tidyWithin, withoutIfTags, Mark.replace_eq_self_of_all_eq_nil htags, evenBlanks,
    squeezeBlanks_eq_self htab hpair, Mark.replace_eq_self_of_all_eq_nil hlines]

end Statement

end SqlPreview
