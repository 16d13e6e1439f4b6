import SqlPreview.Proofs.Statement.LineEnds

namespace SqlPreview

namespace Statement

-- What stands behind a tag takes no part in how it is read.
theorem exists_tag_of_afterIfTag? {t rest : Text} (h : afterIfTag? t = some rest) :
    ∃ tag, t = tag ++ rest ∧ ∀ u, afterIfTag? (tag ++ u) = some u := by
  obtain ⟨name, hname, inner, rfl, hinner, hword⟩ := afterIfTag?_eq_some_iff.mp h
  refine ⟨name ++ (inner ++ ['>']), by simp, fun u => ?_⟩
  exact afterIfTag?_eq_some_iff.mpr ⟨name, hname, inner, by simp, hinner, hword⟩

theorem afterIfTag?_eq_none_of_append {s t : Text} (h : afterIfTag? (s ++ t) = none) :
    afterIfTag? s = none := by
  cases hs : afterIfTag? s with
  | none => rfl
  | some rest =>
    obtain ⟨tag, rfl, htag⟩ := exists_tag_of_afterIfTag? hs
    rw [List.append_assoc, htag] at h
    cases h

-- A front of what is left of a text was there from the start, or a tag has been taken out within it.
theorem exists_of_withoutIfTags_eq_append {p v t : Text} (h : withoutIfTags t = p ++ v) :
    (∃ u, t = p ++ u ∧ withoutIfTags u = v) ∨
      ∃ front back tagged rest, p = front ++ back ∧ back ≠ [] ∧ t = front ++ tagged ∧
        afterIfTag? tagged = some rest ∧ withoutIfTags rest = back ++ v := by
  induction p generalizing t with
  | nil => exact .inl ⟨t, rfl, h⟩
  | cons c p ih =>
    cases hr : afterIfTag? t with
    | some rest =>
      rw [withoutIfTags_of_afterIfTag? hr] at h
      exact .inr ⟨[], c :: p, t, rest, rfl, List.cons_ne_nil c p, rfl, hr, h⟩
    | none =>
      cases t with
      | nil =>
        rw [withoutIfTags_nil] at h
        cases h
      | cons d t =>
        rw [withoutIfTags_cons hr] at h
        obtain ⟨rfl, htail⟩ := List.cons.inj h
        rcases ih htail with ⟨u, rfl, hu⟩ | ⟨front, back, tagged, rest, rfl, hback, rfl, htag, hrest⟩
        · exact .inl ⟨u, rfl, hu⟩
        · exact .inr ⟨d :: front, back, tagged, rest, rfl, hback, rfl, htag, hrest⟩

-- A tag inside the name of another one. When it is out, the name is whole, no word character stands behind
-- it, and a `>` does.
structure PartsName (front tagged back behind : Text) : Prop where
  name : front ++ back ∈ ifNames
  front_ne_nil : front ≠ []
  back_ne_nil : back ≠ []
  taken : ∃ rest, afterIfTag? tagged = some rest ∧ withoutIfTags rest = back ++ behind
  ends : behind.head?.any Text.isWord = false
  close : '>' ∈ behind

-- Taking the tags out of a text puts one together that was not there.
def PiecesTag (t : Text) : Prop :=
  ∃ s front tagged back behind, t = s ++ (front ++ tagged) ∧ PartsName front tagged back behind ∧
    withoutIfTags t = withoutIfTags s ++ (front ++ (back ++ behind))

theorem head?_withoutIfTags_of_isWord {t : Text} (h : t.head?.any Text.isWord) :
    (withoutIfTags t).head?.any Text.isWord := by
  cases t with
  | nil => cases h
  | cons c t =>
    have hangle : Text.isWord '<' = false := by decide
    have hc : c ≠ '<' := by
      rintro rfl
      rw [List.head?_cons, Option.any_some, hangle] at h
      cases h
    rwa [withoutIfTags_cons (afterIfTag?_eq_none hc t)]

theorem piecesTag_of_isSome {t : Text} (h : afterIfTag? t = none)
    (hs : (afterIfTag? (withoutIfTags t)).isSome) : PiecesTag t := by
  obtain ⟨name, hname, behind, hbehind, hword, hend⟩ := isSome_afterIfTag?_iff.mp hs
  rcases exists_of_withoutIfTags_eq_append hbehind with
    ⟨u, rfl, hu⟩ | ⟨front, back, tagged, rest, rfl, hback, rfl, htag, hrest⟩
  · -- the name is in the text, and so is the rest of the tag
    have hsome : (afterIfTag? (name ++ u)).isSome := by
      refine isSome_afterIfTag?_iff.mpr ⟨name, hname, u, rfl, ?_, ?_⟩
      · rw [← hu] at hword
        rw [Bool.eq_false_iff] at hword ⊢
        exact fun hu => hword (head?_withoutIfTags_of_isWord hu)
      · rw [← hu] at hend
        exact mem_of_mem_withoutIfTags hend
    rw [h] at hsome
    cases hsome
  · have hfront : front ≠ [] := by
      rintro rfl
      cases h.symm.trans htag
    refine ⟨[], front, tagged, back, behind, rfl,
      ⟨hname, hfront, hback, ⟨rest, htag, hrest⟩, hword, hend⟩, ?_⟩
    rw [withoutIfTags_nil, List.nil_append, hbehind, List.append_assoc]

theorem piecesTag_of_all_ne_nil {t : Text} (h : ifTag.all (withoutIfTags t) ≠ []) : PiecesTag t := by
  induction t using Mark.ofRest_induction length_lt_of_afterIfTag? with
  | nil => exact absurd (by rw [withoutIfTags_nil]; exact Mark.all_nil _) h
  | mark t rest hrest ih =>
    rw [withoutIfTags_of_afterIfTag? hrest] at h
    obtain ⟨s, front, tagged, back, behind, rfl, hparts, heq⟩ := ih h
    obtain ⟨tag, rfl, hread⟩ := exists_tag_of_afterIfTag? hrest
    refine ⟨tag ++ s, front, tagged, back, behind, by simp, hparts, ?_⟩
    rw [withoutIfTags_of_afterIfTag? hrest, withoutIfTags_of_afterIfTag? (hread s), heq]
  | char c t hc ih =>
    by_cases hs : (afterIfTag? (withoutIfTags (c :: t))).isSome
    · exact piecesTag_of_isSome hc hs
    · have hnone : afterIfTag? (c :: withoutIfTags t) = none := by
        rwa [← withoutIfTags_cons hc, ← Option.not_isSome_iff_eq_none]
      rw [withoutIfTags_cons hc, ifTag, Mark.all_ofRest_of_none hnone] at h
      obtain ⟨s, front, tagged, back, behind, rfl, hparts, heq⟩ := ih h
      refine ⟨c :: s, front, tagged, back, behind, rfl, hparts, ?_⟩
      rw [withoutIfTags_cons hc, withoutIfTags_cons (afterIfTag?_eq_none_of_append (s := c :: s) hc), heq,
        List.cons_append]

theorem all_withoutIfTags_ne_nil_iff {t : Text} :
    ifTag.all (withoutIfTags t) ≠ [] ↔ PiecesTag t := by
  refine ⟨piecesTag_of_all_ne_nil, ?_⟩
  rintro ⟨s, front, tagged, back, behind, -, hparts, heq⟩
  have hsome : (afterIfTag? (front ++ (back ++ behind))).isSome := by
    rw [← List.append_assoc]
    exact isSome_afterIfTag?_iff.mpr ⟨_, hparts.name, behind, rfl, hparts.ends, hparts.close⟩
  obtain ⟨rest, hrest⟩ := Option.isSome_iff_exists.mp hsome
  have hread : ifTag.read? (front ++ (back ++ behind)) = some ((), rest) := by
    rw [ifTag, Mark.read?_ofRest, hrest, Option.map_some]
  rw [heq]
  exact Mark.all_ne_nil_of_suffix (List.suffix_append _ _) hread

section Blanks

theorem mem_evenBlanks {c : Char} (hc : Text.isBlank c = false) {t : Text} :
    c ∈ evenBlanks t ↔ c ∈ t := by
  rw [← Text.mem_solid hc, solid_evenBlanks, Text.mem_solid hc]

theorem exists_head?_evenBlanks {c : Char} (hc : Text.isBlank c) (t : Text) :
    ∃ d, (evenBlanks (c :: t)).head? = some d ∧ Text.isBlank d := by
  rw [evenBlanks_eq, head?_squeezeLineEnds, head?_squeezeBlanks_cons]
  split
  · exact ⟨_, rfl, by decide⟩
  · refine ⟨_, rfl, ?_⟩
    split
    · decide
    · exact hc

-- What stands behind the name of a tag goes on as before.
theorem any_isWord_head?_evenBlanks (t : Text) :
    (evenBlanks t).head?.any Text.isWord = t.head?.any Text.isWord := by
  cases t with
  | nil => rw [evenBlanks_nil]
  | cons c t =>
    cases hc : Text.isBlank c with
    | false => rw [evenBlanks_cons hc]; rfl
    | true =>
      obtain ⟨d, hd, hblank⟩ := exists_head?_evenBlanks hc t
      rw [hd, List.head?_cons, Option.any_some, Option.any_some, Text.isWord_of_isBlank hc,
        Text.isWord_of_isBlank hblank]

theorem exists_of_evenBlanks_eq_append {run t v : Text} (hrun : ∀ c ∈ run, Text.isBlank c = false)
    (h : evenBlanks t = run ++ v) : ∃ u, t = run ++ u ∧ evenBlanks u = v := by
  induction run generalizing t with
  | nil => exact ⟨t, rfl, h⟩
  | cons c run ih =>
    rw [List.forall_mem_cons] at hrun
    cases t with
    | nil =>
      rw [evenBlanks_nil] at h
      cases h
    | cons d t =>
      cases hd : Text.isBlank d with
      | true =>
        obtain ⟨e, he, hblank⟩ := exists_head?_evenBlanks hd t
        rw [h] at he
        cases he
        rw [hrun.1] at hblank
        cases hblank
      | false =>
        rw [evenBlanks_cons hd] at h
        obtain ⟨rfl, htail⟩ := List.cons.inj h
        obtain ⟨u, rfl, hu⟩ := ih hrun.2 htail
        exact ⟨u, rfl, hu⟩

theorem afterIfTag?_evenBlanks (t : Text) :
    afterIfTag? (evenBlanks t) = (afterIfTag? t).map evenBlanks := by
  have hsolid : ∀ name ∈ ifNames, Text.solid name = name := by decide
  have hclose : Text.isBlank '>' = false := by decide
  cases h : afterIfTag? t with
  | some rest =>
    obtain ⟨name, hname, inner, rfl, hinner, hword⟩ := afterIfTag?_eq_some_iff.mp h
    rw [evenBlanks_append_run (Text.solid_eq_self_iff.mp (hsolid name hname)),
      evenBlanks_append_cons hclose]
    refine afterIfTag?_eq_some_iff.mpr ⟨name, hname, evenBlanks inner, rfl, ?_, ?_⟩
    · rwa [mem_evenBlanks hclose]
    · rw [any_isWord_head?_evenBlanks, hword]
  | none =>
    rw [Option.map_none, ← Option.not_isSome_iff_eq_none]
    intro hsome
    obtain ⟨name, hname, behind, hbehind, hword, hend⟩ := isSome_afterIfTag?_iff.mp hsome
    obtain ⟨u, rfl, rfl⟩ :=
      exists_of_evenBlanks_eq_append (Text.solid_eq_self_iff.mp (hsolid name hname)) hbehind
    have hread : (afterIfTag? (name ++ u)).isSome := by
      refine isSome_afterIfTag?_iff.mpr ⟨name, hname, u, rfl, ?_, (mem_evenBlanks hclose).mp hend⟩
      rw [← any_isWord_head?_evenBlanks, hword]
    rw [h] at hread
    cases hread

variable {lead tail : Text}

theorem all_ifTag_append_left (h : Text.allBlank lead) (t : Text) :
    ifTag.all (lead ++ t) = ifTag.all t := by
  refine Mark.all_append_of_no_mark fun c u hu => ?_
  have hangle : '<' ∉ lead := Text.not_mem_of_allBlank (by decide) h
  have hc : c ≠ '<' := ne_of_mem_of_not_mem (hu.subset List.mem_cons_self) hangle
  rw [ifTag, Mark.read?_ofRest, afterIfTag?_eq_none hc, Option.map_none]

theorem all_ifTag_append_right (t : Text) (h : Text.allBlank tail) :
    ifTag.all (t ++ tail) = ifTag.all t := by
  have htail := all_ifTag_append_left h []
  rw [List.append_nil, Mark.all_nil] at htail
  cases tail with
  | nil => rw [List.append_nil]
  | cons c tail =>
    have hsolid : Text.solid "</if>".toList = "</if>".toList := by decide
    have hnone : ∀ d ∈ "</if>".toList, d ∉ c :: tail := fun d hd =>
      Text.not_mem_of_allBlank (Text.solid_eq_self_iff.mp hsolid d hd) h
    have htag : c ∉ "</if".toList := fun hm =>
      hnone c (List.mem_append_left ['>'] hm) List.mem_cons_self
    have hword : Text.isWord c = false := Text.isWord_of_allBlank h c List.mem_cons_self
    rw [Mark.all_append leavesEnd_ifTag (fun u hu hne => ?_), htail, List.append_nil]
    rw [ifTag, Mark.read?_ofRest, Mark.read?_ofRest,
      afterIfTag?_append_cons htag hword fun _ => .inr (hnone '>' (by decide)), Option.map_map,
      Option.map_map]
    rfl

theorem all_ifTag_trim (t : Text) : ifTag.all (Text.trim t) = ifTag.all t := by
  obtain ⟨lead, tail, heq, hlead, htail⟩ := Text.exists_trim_append t
  conv_rhs => rw [← heq, all_ifTag_append_left hlead, all_ifTag_append_right _ htail]

theorem all_ifTag_evenBlanks (t : Text) : ifTag.all (evenBlanks t) = ifTag.all t := by
  -- blanks in front of the text do not matter, whatever they become
  have hstart : ∀ u, ifTag.all (evenBlanks (Text.trimStart u)) = ifTag.all (evenBlanks u) := by
    intro u
    have hhead : ∀ c ∈ (Text.trimStart u).head?, Text.isBlank c = false := by
      intro c hc
      have hnot := List.head?_dropWhile_not Text.isBlank u
      rw [Text.trimStart] at hc
      rw [hc] at hnot
      exact hnot
    have hlead : Text.allBlank (u.takeWhile Text.isBlank) := List.all_takeWhile
    conv_rhs => rw [← List.takeWhile_append_dropWhile (p := Text.isBlank) (l := u)]
    rw [← Text.trimStart, evenBlanks_append_of_head? _ hhead,
      all_ifTag_append_left (allBlank_evenBlanks hlead)]
  induction t using Mark.ofRest_induction length_lt_of_afterIfTag? with
  | nil => rw [evenBlanks_nil]
  | mark t rest hrest ih =>
    have hread : afterIfTag? (evenBlanks t) = some (evenBlanks rest) := by
      rw [afterIfTag?_evenBlanks, hrest, Option.map_some]
    rw [ifTag, Mark.all_ofRest_of_some hread, Mark.all_ofRest_of_some hrest, ← ifTag, ih]
  | char c t hc ih =>
    rw [ifTag, Mark.all_ofRest_of_none hc, ← ifTag, ← ih]
    cases hb : Text.isBlank c with
    | true =>
      have htrim : Text.trimStart (c :: t) = Text.trimStart t := List.dropWhile_cons_of_pos hb
      rw [← hstart (c :: t), htrim, hstart]
    | false =>
      have hread : afterIfTag? (c :: evenBlanks t) = none := by
        rw [← evenBlanks_cons hb, afterIfTag?_evenBlanks, hc, Option.map_none]
      rw [evenBlanks_cons hb, ifTag, Mark.all_ofRest_of_none hread]

theorem all_ifTag_tidy (t : Text) : ifTag.all (tidy t) = ifTag.all (withoutIfTags t) := by
  rw [tidy_eq, all_ifTag_trim, tidyWithin, all_ifTag_evenBlanks]

end Blanks

-- What tidying takes out of a statement besides blanks are its tags.
theorem withoutIfTags_sublist (t : Text) : (withoutIfTags t).Sublist t := by
  induction t using Mark.ofRest_induction length_lt_of_afterIfTag? with
  | nil => rw [withoutIfTags_nil]
  | mark t rest hrest ih =>
    rw [withoutIfTags_of_afterIfTag? hrest]
    exact ih.trans (suffix_of_afterIfTag? hrest).sublist
  | char c t hc ih =>
    rw [withoutIfTags_cons hc]
    exact ih.cons_cons c

-- Every tag that is taken out takes an angle bracket with it.
theorem all_ifTag_eq_nil_of_count_eq {t : Text} (h : (withoutIfTags t).count '<' = t.count '<') :
    ifTag.all t = [] := by
  induction t using Mark.ofRest_induction length_lt_of_afterIfTag? with
  | nil => exact Mark.all_nil _
  | mark t rest hrest ih =>
    have hnames : ∀ name ∈ ifNames, name.count '<' = 1 := by decide
    have hrestCount := (withoutIfTags_sublist rest).count_le '<'
    rw [withoutIfTags_of_afterIfTag? hrest] at h
    obtain ⟨name, hname, inner, rfl, -⟩ := afterIfTag?_eq_some_iff.mp hrest
    rw [List.count_append, List.count_append, hnames name hname, List.count_cons] at h
    omega
  | char c t hc ih =>
    rw [withoutIfTags_cons hc, List.count_cons, List.count_cons, Nat.add_right_cancel_iff] at h
    rw [ifTag, Mark.all_ofRest_of_none hc, ← ifTag, ih h]

theorem solid_withoutIfTags_eq_iff {t : Text} :
    Text.solid (withoutIfTags t) = Text.solid t ↔ ifTag.all t = [] := by
  constructor
  · intro h
    have hangle : Text.isBlank '<' = false := by decide
    have hcount := congrArg (List.count '<') h
    rw [Text.count_solid hangle, Text.count_solid hangle] at hcount
    exact all_ifTag_eq_nil_of_count_eq hcount
  · intro h
    rw [withoutIfTags, Mark.replace_eq_self_of_all_eq_nil h]

-- The texts that tidying leaves as they are.
theorem tidy_eq_self_iff {t : Text} :
    tidy t = t ↔ Tidied t ∧ ifTag.all t = [] ∧ ¬['\n', '\r', '\n'] <:+: t := by
  constructor
  · intro h
    have htidied : Tidied t := h ▸ tidied_tidy t
    have htags : ifTag.all t = [] := by
      rw [← solid_withoutIfTags_eq_iff, ← solid_tidy, h]
    have heven : squeezeLineEnds t = t := by
      rw [tidy_eq_evenBlanks, withoutIfTags, Mark.replace_eq_self_of_all_eq_nil htags, htidied.trimmed,
        evenBlanks_eq, squeezeBlanks_eq_self htidied.tab htidied.spaces] at h
      exact h
    exact ⟨htidied, htags, (all_blankLines_eq_nil_iff.mp (squeezeLineEnds_eq_self_iff.mp heven)).2⟩
  · rintro ⟨⟨htab, hspaces, hfeeds, htrimmed⟩, htags, hreturn⟩
    have hlines := all_blankLines_eq_nil_iff.mpr ⟨hfeeds, hreturn⟩
    rw [tidy_eq, tidyWithin_eq_self htags htab hspaces hlines, htrimmed]

-- A tag is left in a tidied statement if one has been put together by taking out others. Tidying it again
-- changes it for this reason, or because of a carriage return that belonged to no line end.
theorem tidy_tidy_eq_iff (t : Text) :
    (ifTag.all (tidy t) = [] ↔ ¬PiecesTag t) ∧
      (tidy (tidy t) = tidy t ↔
        ¬PiecesTag t ∧ ¬StrayReturn (Text.trim (withoutIfTags t))) := by
  have htags : ifTag.all (tidy t) = [] ↔ ¬PiecesTag t := by
    rw [all_ifTag_tidy, ← all_withoutIfTags_ne_nil_iff, Classical.not_not]
  refine ⟨htags, ?_⟩
  rw [tidy_eq_self_iff, htags, infix_tidy_iff]
  exact and_iff_right (tidied_tidy t)

-- A tag whose name another tag parts is left, and so is a carriage return in front of a line feed.
theorem tidy_tidy_ne :
    let tagged := "a <<if>if x> b".toList
    let returned := "a\n\r\r\n\nb".toList
    (tidy tagged = "a <if x> b".toList ∧ ifTag.all (tidy tagged) ≠ [] ∧
        tidy (tidy tagged) ≠ tidy tagged) ∧
      tidy returned = "a\n\r\nb".toList ∧ tidy (tidy returned) ≠ tidy returned := by
  decide +kernel

-- The name of an `if` tag never stands in front of a blank, a slash or a `>`.
def NamesNoTag (t : Text) : Prop :=
  ∀ name ∈ ifNames, ∀ behind, name ++ behind <:+ t →
    ∀ c ∈ behind.head?, Text.isBlank c = false ∧ c ≠ '/' ∧ c ≠ '>'

instance (t : Text) : Decidable (NamesNoTag t) :=
  decidable_of_iff (∀ name ∈ ifNames, ∀ s ∈ t.tails, ∀ behind ∈ Text.after? name s,
      behind.head?.all fun c => !Text.isBlank c && c != '/' && c != '>') <| by
    simp only [List.mem_tails, Option.mem_def, Text.after?_eq_some_iff, Option.all_eq_true,
      Bool.and_eq_true, Bool.not_eq_true', bne_iff_ne, and_assoc]
    exact forall₂_congr fun name _ =>
      ⟨fun h behind hs => h _ hs behind rfl, fun h s hs behind heq => h behind (heq ▸ hs)⟩

-- Tidying takes nothing but blanks out of a text exactly if every name of an `if` tag in it goes on with a
-- word character, or has no `>` behind it.
theorem solid_tidy_eq_iff (t : Text) :
    Text.solid (tidy t) = Text.solid (withoutIfTags t) ∧
      (Text.solid (tidy t) = Text.solid t ↔
        ∀ name ∈ ifNames, ∀ behind, name ++ behind <:+ t →
          behind.head?.any Text.isWord ∨ '>' ∉ behind) := by
  refine ⟨solid_tidy t, ?_⟩
  rw [solid_tidy, solid_withoutIfTags_eq_iff, ifTag,
    Mark.all_ofRest_eq_nil_iff suffix_of_afterIfTag?]
  constructor
  · intro h name hname behind hs
    have hnone : ¬(afterIfTag? (name ++ behind)).isSome := by
      rw [h _ hs]
      exact Bool.false_ne_true
    refine Classical.byContradiction fun hbehind => ?_
    rw [not_or, Classical.not_not, Bool.not_eq_true] at hbehind
    exact hnone (isSome_afterIfTag?_iff.mpr ⟨name, hname, behind, rfl, hbehind⟩)
  · intro h s hs
    rw [← Option.not_isSome_iff_eq_none]
    intro hsome
    obtain ⟨name, hname, behind, rfl, hword, hend⟩ := isSome_afterIfTag?_iff.mp hsome
    rcases h name hname behind hs with hw | hw
    · rw [hword] at hw
      cases hw
    · exact hw hend

-- A comparison with a function is taken for a tag, up to the next comparison.
theorem solid_tidy_ne :
    let t := "SELECT 1 FROM t WHERE a <if(b, 1, 2) AND c > 3".toList
    NamesNoTag t ∧ tidy t = "SELECT 1 FROM t WHERE a 3".toList ∧
      Text.solid (tidy t) ≠ Text.solid t := by
  decide +kernel

end Statement

end SqlPreview
