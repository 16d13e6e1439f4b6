import SqlPreview.Proofs.Statement.Finding
import SqlPreview.Proofs.Statement.Tidy
import SqlPreview.Proofs.Template.Conservation
import SqlPreview.Proofs.Template.Stages

namespace SqlPreview

namespace Text

-- A word without letters is written in one way.
theorem eq_of_spells {word t : Text} (hword : word.all fun c => !c.isLower) (h : spells word t) :
    t = word := by
  have hmap : t.map foldCase = word := eq_of_beq h
  subst hmap
  induction t with
  | nil => rfl
  | cons c t ih =>
    rw [List.map_cons, List.all_cons, Bool.and_eq_true, Bool.not_eq_true'] at hword
    have hc : foldCase c = c := by
      rcases Tag.foldCase_eq_or_isLower c with heq | hlower
      · exact heq
      · rw [hlower] at hword
        exact absurd hword.1 (by decide)
    rw [List.map_cons, hc, ← ih hword.2 (by simp [spells])]

theorem exists_of_spells_append (first second : Text) {t : Text}
    (h : spells (first ++ second) t) :
    ∃ s u, t = s ++ u ∧ spells first s ∧ spells second u := by
  obtain ⟨s, u, rfl, hs, hu⟩ := List.map_eq_append_iff.mp (eq_of_beq h)
  exact ⟨s, u, rfl, beq_iff_eq.mpr hs, beq_iff_eq.mpr hu⟩

end Text

def Role.kind : Role → Block.Kind
  | opens head => head.kind
  | closes kind => kind

namespace Statement

-- A name of a tag behind a bracket, or behind a bracket and a slash, makes a tag if its end follows.
theorem isSome_readTag? {lead name word rest : Text} (hlead : lead ∈ ["<".toList, "</".toList])
    (hname : name ∈ tagNames) (hword : Text.spells name word) (hend : (splitTagEnd? rest).isSome) :
    (readTag? (lead ++ (word ++ rest))).isSome := by
  have hbody : (tagNames.findSome? (splitTagBody? · (word ++ rest))).isSome := by
    rw [List.findSome?_isSome_iff]
    refine ⟨name, hname, ?_⟩
    obtain ⟨found, hfound⟩ := Option.isSome_iff_exists.mp hend
    simp [splitTagBody?, Tag.splitWord?_append hword, hfound]
  obtain ⟨found, hfound⟩ := Option.isSome_iff_exists.mp hbody
  rw [List.mem_cons, List.mem_singleton] at hlead
  rcases hlead with rfl | rfl
  · -- the name does not begin with a slash, which would be read as that of a closing tag
    cases word with
    | nil =>
      have hnames : ∀ n ∈ tagNames, n ≠ [] := by decide
      exact absurd (eq_of_beq hword).symm (hnames name hname)
    | cons c word =>
      have hslash : c ≠ '/' := by
        rintro rfl
        have hnames : ∀ n ∈ tagNames, n.head? ≠ some '/' := by decide
        refine hnames name hname ?_
        rw [← eq_of_beq hword]
        rfl
      simp only [List.cons_append] at hfound ⊢
      simp [readTag?, hslash, hfound]
  · simp [readTag?, hfound]

-- The end of a tag may be put off behind blanks, to the next closing bracket.
theorem isSome_splitTagEnd? {blanks t : Text} (hne : blanks ≠ []) (hb : Text.allBlank blanks)
    (ht : '>' ∈ t) : (splitTagEnd? (blanks ++ t)).isSome := by
  obtain ⟨c, blanks, rfl⟩ := List.exists_cons_of_ne_nil hne
  have hc : Text.isBlank c := Text.allBlank_iff.mp hb c List.mem_cons_self
  have hend : c ≠ '>' := by
    rintro rfl
    exact absurd hc (by decide)
  have hdrop : (blanks ++ t).dropWhile (· != '>') ≠ [] := by
    rw [ne_eq, Text.dropWhile_ne_eq_nil_iff, not_not]
    exact List.mem_append_right _ ht
  obtain ⟨d, behind, hbehind⟩ := List.exists_cons_of_ne_nil hdrop
  simp [splitTagEnd?, hc, hbehind]

-- Every tag of a template, except for those of conditionals, is a tag for the search as well.
theorem isSome_readTag?_of_written {tag : Tag} (h : tag.Written) (hk : tag.role.kind ≠ .conditional)
    (rest : Text) : (readTag? (tag.text ++ rest)).isSome := by
  have hbare : ∀ lead ∈ ["<".toList, "</".toList], ∀ name ∈ tagNames, ∀ word, Text.spells name word →
      (readTag? (lead ++ (word ++ '>' :: rest))).isSome :=
    fun lead hl name hn word hw => isSome_readTag? hl hn hw rfl
  obtain ⟨text, role⟩ := tag
  cases role with
  | opens head =>
    cases head with
    | conditional test => exact absurd rfl hk
    | loop header =>
      obtain ⟨name, blanks, attributes, hn, hne, hb, -, -, rfl⟩ := h
      obtain ⟨lead, word, rfl, hlead, hword⟩ :=
        Text.exists_of_spells_append "<".toList "foreach".toList hn
      obtain rfl := Text.eq_of_spells (by decide) hlead
      have hend : (splitTagEnd? (blanks ++ (attributes ++ '>' :: rest))).isSome :=
        isSome_splitTagEnd? hne hb (by simp)
      have hmem : "<".toList ∈ ["<".toList, "</".toList] := List.mem_cons_self
      simpa using isSome_readTag? hmem (by decide) hword hend
    | setClause =>
      obtain rfl : text = "<set>".toList := h
      exact hbare "<".toList (by decide) "set".toList (by decide) "set".toList (by decide)
    | whereClause =>
      obtain rfl : text = "<where>".toList := h
      exact hbare "<".toList (by decide) "where".toList (by decide) "where".toList (by decide)
  | closes kind =>
    cases kind with
    | conditional => exact absurd rfl hk
    | loop =>
      obtain ⟨lead, named, rfl, hlead, hnamed⟩ :=
        Text.exists_of_spells_append "</".toList "foreach>".toList h
      obtain ⟨word, close, rfl, hword, hclose⟩ :=
        Text.exists_of_spells_append "foreach".toList ">".toList hnamed
      obtain rfl := Text.eq_of_spells (by decide) hlead
      obtain rfl := Text.eq_of_spells (by decide) hclose
      simpa using hbare "</".toList (by decide) "foreach".toList (by decide) word hword
    | setClause =>
      obtain rfl : text = "</set>".toList := h
      exact hbare "</".toList (by decide) "set".toList (by decide) "set".toList (by decide)
    | whereClause =>
      obtain rfl : text = "</where>".toList := h
      exact hbare "</".toList (by decide) "where".toList (by decide) "where".toList (by decide)

theorem tags_ne_nil {sql : Text} {tag : Tag} (h : tag ∈ Tag.mark.all sql)
    (hk : tag.role.kind ≠ .conditional) : tagMark.all sql ≠ [] := by
  obtain ⟨s, rest, hs, hread⟩ := Mark.exists_read?_of_mem_all Tag.leavesEnd_mark h
  have hfound := isSome_readTag?_of_written (Tag.written_of_read? hread) hk rest
  rw [(Tag.append_of_read? hread).1] at hfound
  obtain ⟨found, hfound⟩ := Option.isSome_iff_exists.mp hfound
  exact Mark.all_ne_nil_of_suffix hs hfound

end Statement

-- The kind of block that the tag of an issue is written for.
def Issue.blockKind? (issue : Issue) : Option Block.Kind :=
  (Tag.read? issue.tag).map fun found => found.1.role.kind

namespace Template

-- A block of a tree has its tags in the source.
theorem exists_tag_of_mem_heads {source : Text} {head : Block.Head}
    (h : head ∈ Node.heads (parse source).nodes) :
    ∃ tag ∈ Tag.mark.all source, tag.role.kind = head.kind := by
  obtain ⟨node, hnode, hhead⟩ := List.mem_filterMap.mp h
  cases node with
  | text t => cases hhead
  | block head' openTag closeTag body =>
    cases hhead
    exact ⟨⟨openTag, .opens head⟩, (allTaggedBy_parse source _ hnode).1, rfl⟩

-- What an issue tells of its tag is what the source has at this place.
theorem exists_tag_of_mem_issues {source : Text} {issue : Issue} (h : issue ∈ (parse source).issues) :
    ∃ tag ∈ Tag.mark.all source, issue.blockKind? = some tag.role.kind := by
  obtain ⟨token, ht, htag⟩ := exists_token_of_mem_issues h
  have hmem : token.tag ∈ Tag.mark.all source := map_tag_tokens source ▸ List.mem_map_of_mem ht
  have hread := Tag.read?_append (Tag.written_of_mem_all hmem) []
  rw [List.append_nil, ← htag] at hread
  exact ⟨token.tag, hmem, by rw [Issue.blockKind?, hread, Option.map_some]⟩

-- A render leaves no bracket of which none comes in.
theorem bracket_not_mem_render {template : Template} {params : Params}
    (h : Node.TagFree template.nodes) (hp : Params.Avoid params '<') :
    '<' ∉ template.render params := by
  have hexpansion : '<' ∉ Node.expansion ⟨params, .all, true⟩ template.nodes :=
    Node.not_mem_expansion (by decide) (fun _ => by decide) hp h.texts fun head hh =>
      ⟨Plan.expands_of_contains (by cases head <;> rfl) (h.heads head hh).1, (h.heads head hh).2⟩
  have hfilled := Placeholder.not_mem_fillAll (by decide) hexpansion hp
  intro hmem
  have htidied : '<' ∈ Placeholder.unshield (Placeholder.fillAll params
      (Node.expansion ⟨params, .all, true⟩ template.nodes)) :=
    Statement.mem_of_mem_tidy (by decide) hmem
  exact hfilled (List.mem_of_mem_filter htidied)

-- Markup does not go unnoticed. A statement that would be read as a template with a loop, a SET block or
-- a WHERE block, or with a tag of one of these that has no partner, is reported for it. And where
-- brackets come in with tags only, and every loop has an item, no bracket is left.
theorem markup_noticed :
    (∀ sql, Statement.kind? sql ≠ none →
      ((∃ head ∈ Node.heads (parse sql).nodes, head.kind ≠ .conditional) ∨
        ∃ issue ∈ (parse sql).issues, issue.kind.isUnpaired ∧
          ∃ kind ∈ issue.blockKind?, kind ≠ .conditional) →
      "W004".toList ∈ (Statement.findings sql).map Statement.Finding.code) ∧
    ∀ (template : Template) (params : Params), Node.TagFree template.nodes → Params.Avoid params '<' →
      '<' ∉ template.render params := by
  refine ⟨fun sql hsome hmarkup => ?_, fun template params => bracket_not_mem_render⟩
  obtain ⟨kind, hkind⟩ := Option.ne_none_iff_exists'.mp hsome
  rw [Statement.code_markupLeft_mem_iff hkind]
  rcases hmarkup with ⟨head, hh, hne⟩ | ⟨issue, hi, -, kind, hissue, hne⟩
  · obtain ⟨tag, ht, heq⟩ := exists_tag_of_mem_heads hh
    exact Statement.tags_ne_nil ht (heq ▸ hne)
  · obtain ⟨tag, ht, heq⟩ := exists_tag_of_mem_issues hi
    rw [heq] at hissue
    cases hissue
    exact Statement.tags_ne_nil ht hne

-- Two tags without a partner, one of them in capitals; and a loop within a WHERE block, over values
-- of which one is a record.
theorem markup_noticed_unpaired :
    let sql := "SELECT a FROM t <set> b = 1 </FOREACH>".toList
    let source := "<where><if test=\x22r != null\x22>a IN ".toList ++
      "<foreach item=\x22r\x22>#\x7br.k\x7d</foreach></if></where>".toList
    let params : Params := [("r".toList, .list [.record [("k".toList, .text "a > b".toList)], .int 3])]
    "W004".toList ∈ (Statement.findings sql).map Statement.Finding.code ∧
      Node.TagFree (parse source).nodes ∧ Params.Avoid params '<' ∧
      '<' ∉ (parse source).render params := by
  intro sql source params
  have htree : Node.TagFree (parse source).nodes := ⟨by decide +kernel, by decide +kernel⟩
  have hparams : Params.Avoid params '<' := Params.avoid_of_forall_mem (by decide +kernel)
  have hissue : (⟨.unclosed, "<set>".toList, 16⟩ : Issue) ∈ (parse sql).issues :=
    List.mem_mergeSort.mpr (by decide +kernel)
  have hmarkup := markup_noticed.1 sql (by decide +kernel)
    (.inr ⟨_, hissue, rfl, .setClause, by decide +kernel, by decide⟩)
  exact ⟨hmarkup, htree, hparams, markup_noticed.2 (parse source) params htree hparams⟩

end Template

end SqlPreview
