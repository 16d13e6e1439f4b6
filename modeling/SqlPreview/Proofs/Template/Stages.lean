import SqlPreview.Proofs.Block.Loop
import SqlPreview.Proofs.Template.Characters
import SqlPreview.Proofs.Template.Origin
import SqlPreview.Proofs.Template.Residue
import SqlPreview.Proofs.Template.Verbatim

namespace SqlPreview

namespace Loop

-- Where the elements bind every placeholder, and no value holds a brace, filling the body at once
-- changes nothing.
theorem unroll_some_eq_none (header : Header) {item body : Text} {params : Params}
    (hp : Params.Avoid params '{')
    (hb : ∀ element ∈ elements (params.get? item), ∀ p ∈ Placeholder.mark.all body,
      Binds item element p.name) :
    unroll header item body (elements (params.get? item)) (some params) =
      unroll header item body (elements (params.get? item)) none := by
  have hfragments : fragments item body (elements (params.get? item)) (some params) =
      fragments item body (elements (params.get? item)) none := by
    refine List.map_congr_left fun element he => congrArg Text.trim ?_
    refine Mark.replace_congr fun p hm => ?_
    obtain ⟨value, hv⟩ := (hb element he p hm).exists_bound?
    have hbrace : '{' ∉ p.form.write value.toText := fun h =>
      hp.not_mem_element he
        (mem_of_mem_boundForm (Placeholder.mem_of_mem_bound? hv (Form.mem_of_mem_write h (by decide))))
    simp only [Placeholder.bind, hv, Placeholder.shield_eq_self hbrace]
  rw [unroll, unroll, hfragments]

end Loop

namespace Node

-- A loop holds no block but conditionals, and a SET block holds no WHERE block, at any depth.
def NestsWell : Node → Prop
  | text _ => True
  | block head _ _ body =>
    (head.kind = .loop → ∀ inner ∈ heads body, inner.kind = .conditional) ∧
      (head.kind = .setClause → ∀ inner ∈ heads body, inner.kind ≠ .whereClause)

instance : DecidablePred NestsWell
  | text _ => isTrue trivial
  | block .. => inferInstanceAs (Decidable (_ ∧ _))

-- If the node is a loop, each element that it runs over binds every placeholder of its body.
def BindsAll (params : Params) : Node → Prop
  | block (.loop header) _ _ body =>
    ∀ item ∈ header.item, ∀ element ∈ Loop.elements (params.get? item),
      ∀ p ∈ Placeholder.mark.all (printAll body), Loop.Binds item element p.name
  | _ => True

instance (params : Params) : DecidablePred (BindsAll params)
  | block (.loop header) _ _ body =>
    inferInstanceAs (Decidable (∀ item ∈ header.item, ∀ element ∈ Loop.elements (params.get? item),
      ∀ p ∈ Placeholder.mark.all (printAll body), Loop.Binds item element p.name))
  | block (.conditional _) _ _ _ | block .setClause _ _ _ | block .whereClause _ _ _ | text _ =>
    isTrue trivial

-- Of the nodes of a tree, those of the body of a block and those behind it.
theorem forall_everyAll_block {P : Node → Prop} {head : Block.Head} {openTag closeTag : Text}
    {body rest : List Node} :
    (∀ node ∈ everyAll (.block head openTag closeTag body :: rest), P node) ↔
      P (.block head openTag closeTag body) ∧ (∀ node ∈ everyAll body, P node) ∧
        ∀ node ∈ everyAll rest, P node := by
  rw [everyAll_block, List.forall_mem_cons, List.forall_mem_append]

-- With loops that hold conditionals only, and elements that bind all that the conditionals leave in
-- their bodies, it does not matter whether bodies are filled at once.
theorem expansion_fill_eq {params : Params} {nodes : List Node} (hp : Params.Avoid params '{')
    (hn : ∀ node ∈ everyAll nodes, node.NestsWell)
    (hb : ∀ node ∈ everyAll (residueAll ⟨params, .only .conditional, false⟩ nodes),
      node.BindsAll params) :
    expansion ⟨params, .all, true⟩ nodes = expansion ⟨params, .all, false⟩ nodes := by
  induction nodes using row_induction with
  | nil => simp
  | text t rest ih =>
    rw [residueAll_text, everyAll_text, List.forall_mem_cons] at hb
    rw [everyAll_text, List.forall_mem_cons] at hn
    rw [expansion_text, expansion_text, ih hn.2 hb.2]
  | block head openTag closeTag body rest ihBody ihRest =>
    obtain ⟨hnode, hnbody, hnrest⟩ := forall_everyAll_block.mp hn
    cases head with
    | conditional test =>
      rw [residueAll_conditional rfl, everyAll_append, List.forall_mem_append] at hb
      rw [expansion_conditional rfl, expansion_conditional rfl, ihRest hnrest hb.2]
      by_cases ht : Condition.holds params test
      · rw [if_pos ht] at hb
        rw [if_pos ht, if_pos ht, ihBody hnbody hb.1]
      · rw [if_neg ht, if_neg ht]
    | loop header =>
      rw [residueAll_kept rfl, forall_everyAll_block] at hb
      obtain ⟨hbinds, -, hbrest⟩ := hb
      have hconditional := hnode.1 rfl
      have hbody : ∀ kinds : Block.Kinds, kinds.conditional = true → ∀ fill,
          expansion ⟨params, kinds, fill⟩ body =
            printAll (residueAll ⟨params, .only .conditional, false⟩ body) := by
        intro kinds hk fill
        rw [printAll_residueAll]
        refine expansion_congr fun inner hi => ?_
        cases inner with
        | conditional test =>
          refine ⟨?_, fun _ _ => rfl⟩
          simp [Plan.expands, Block.Kinds.contains, Block.Head.kind, Block.Kinds.only, hk]
        | _ => exact absurd (hconditional _ hi) (by simp [Block.Head.kind])
      rw [expansion_block, expansion_block, hbody .all rfl, hbody .all rfl, ihRest hnrest hbrest]
      obtain ⟨item, opening, separator, closing⟩ := header
      cases item with
      | none => rfl
      | some item =>
        have hunroll := Loop.unroll_some_eq_none ⟨some item, opening, separator, closing⟩ hp
          (hbinds item rfl)
        exact congrArg (· ++ _) hunroll
    | setClause =>
      rw [residueAll_kept rfl, forall_everyAll_block] at hb
      rw [expansion_block, expansion_block, ihBody hnbody hb.2.1, ihRest hnrest hb.2.2]
      rfl
    | whereClause =>
      rw [residueAll_kept rfl, forall_everyAll_block] at hb
      rw [expansion_block, expansion_block, ihBody hnbody hb.2.1, ihRest hnrest hb.2.2]
      rfl

-- No `<` stands in the texts and in the attributes of the loops, all of which have an item.
structure TagFree (nodes : List Node) : Prop where
  texts : ∀ t ∈ texts nodes, '<' ∉ t
  heads : ∀ head ∈ heads nodes, head.lacksItem = false ∧ head.Avoids '<'

theorem TagFree.body {nodes body : List Node} {head : Block.Head} {openTag closeTag : Text}
    (h : TagFree nodes) (hb : .block head openTag closeTag body ∈ everyAll nodes) : TagFree body where
  texts t ht := by
    obtain ⟨node, hn, hnt⟩ := List.mem_filterMap.mp ht
    exact h.texts t (List.mem_filterMap.mpr ⟨node, mem_everyAll_of_mem_body hb hn, hnt⟩)
  heads inner hi := by
    obtain ⟨node, hn, hni⟩ := List.mem_filterMap.mp hi
    exact h.heads inner (List.mem_filterMap.mpr ⟨node, mem_everyAll_of_mem_body hb hn, hni⟩)

-- A set of kinds that, with every block that it writes, writes all blocks inside.
def ClosedUnder (kinds : Block.Kinds) (nodes : List Node) : Prop :=
  ∀ head openTag closeTag body, .block head openTag closeTag body ∈ everyAll nodes →
    kinds.contains head.kind → head.kind ≠ .conditional →
      ∀ inner ∈ heads body, kinds.contains inner.kind

theorem closedUnder_of_nestsWell {kinds : Block.Kinds} {nodes : List Node}
    (hn : ∀ node ∈ everyAll nodes, node.NestsWell) (hc : kinds.conditional)
    (hw : kinds.whereClause = false) (hs : kinds.setClause → kinds.loop) :
    ClosedUnder kinds nodes := by
  intro head openTag closeTag body hb hk hne inner hi
  obtain ⟨hloop, hset⟩ := hn _ hb
  cases head with
  | conditional test => exact absurd rfl hne
  | loop header =>
    rw [hloop rfl inner hi]
    exact hc
  | setClause =>
    have hkind := hset rfl inner hi
    cases inner with
    | conditional test => exact hc
    | loop header => exact hs hk
    | setClause => exact hk
    | whereClause => exact absurd rfl hkind
  | whereClause => exact absurd (hw.symm.trans hk) (by decide)

-- Such a set leaves a tree that is read again from its text.
theorem lawfulAll_residueAll_of_closed {params : Params} {kinds : Block.Kinds} {nodes : List Node}
    (hl : LawfulAll nodes) (hf : TagFree nodes) (hp : Params.Avoid params '<')
    (hc : ClosedUnder kinds nodes) : LawfulAll (residueAll ⟨params, kinds, false⟩ nodes) := by
  refine lawfulAll_residueAll hl fun head openTag closeTag body hb he hk => ?_
  have hown : '<' ∉ Plan.ownChars := by decide
  have hkind : kinds.contains head.kind := (Bool.and_eq_true _ _ ▸ he).1
  have hfree := hf.body hb
  have hexpands : ∀ inner ∈ heads body, (⟨params, kinds, false⟩ : Plan).expands inner := by
    intro inner hi
    simp [Plan.expands, hc head openTag closeTag body hb hkind hk inner hi, (hfree.heads inner hi).1]
  have hbody : '<' ∉ expansion ⟨params, kinds, false⟩ body :=
    not_mem_expansion hown (by simp) hp hfree.texts fun inner hi =>
      ⟨hexpands inner hi, (hfree.heads inner hi).2⟩
  have hhead := hf.heads head (List.mem_filterMap.mpr ⟨_, hb, rfl⟩)
  exact Tag.isCalm_of_not_mem (Plan.not_mem_write hown (by simp) hp hhead.2 hbody)

-- One more stage: reading the text of such a set again and expanding one more kind comes to the same
-- as expanding that kind along with the others.
theorem expandOnly_expansion {params : Params} {kinds : Block.Kinds} {nodes : List Node}
    (hl : LawfulAll nodes) (hf : TagFree nodes) (hp : Params.Avoid params '<')
    (hc : ClosedUnder kinds nodes) (kind : Block.Kind) :
    expandOnly kind (expansion ⟨params, kinds, false⟩ nodes) params =
      expansion ⟨params, kinds.union (.only kind), false⟩ nodes := by
  rw [← printAll_residueAll, expandOnly,
    Template.expand_parse_printAll (lawfulAll_residueAll_of_closed hl hf hp hc), expansion_residueAll]
  exact fun head openTag closeTag body hb hk hne inner hi _ =>
    hc head openTag closeTag body hb hk hne inner hi

end Node

-- A clause is written without looking at any parameter.
theorem expandOnly_clause {kind : Block.Kind} (h : kind = .setClause ∨ kind = .whereClause)
    (source : Text) (params params' : Params) :
    expandOnly kind source params = expandOnly kind source params' := by
  refine Node.expansion_congr fun head _ => ⟨rfl, fun he inner => ?_⟩
  have hkind : (Block.Kinds.only kind).contains head.kind := (Bool.and_eq_true _ _ ▸ he).1
  rw [Block.Kinds.contains_only, beq_iff_eq] at hkind
  cases head with
  | setClause => rfl
  | whereClause => rfl
  | _ => rcases h with rfl | rfl <;> simp [Block.Head.kind] at hkind

-- The statement as the stages make it: conditionals first, then loops, SET blocks and WHERE blocks,
-- then the placeholders.
def staged (source : Text) (params : Params) : Text :=
  let looped := expandOnly .loop (expandOnly .conditional source params) params
  let clauses := expandOnly .whereClause (expandOnly .setClause looped []) []
  Statement.tidy (Placeholder.fillAll params clauses)

-- A template and values for it that make nothing new on the way: no text, attribute or value brings a
-- tag, a placeholder or a shield with it, and the blocks are nested in the order of the stages.
structure Stageable (source : Text) (params : Params) : Prop where
  tagFree : Node.TagFree (Template.parse source).nodes
  nestsWell : ∀ node ∈ Node.everyAll (Template.parse source).nodes, node.NestsWell
  bindsAll : ∀ node ∈ Node.everyAll (Template.parse (expandOnly .conditional source params)).nodes,
    node.BindsAll params
  values : ∀ c ∈ ['<', '{', Placeholder.shieldChar], Params.Avoid params c
  source : Placeholder.shieldChar ∉ source

section Stageable

variable {source : Text} {params : Params} (h : Stageable source params)
include h

theorem Stageable.lawfulAll : Node.LawfulAll (Template.parse source).nodes :=
  Template.lawfulAll_parse fun t ht => Tag.isCalm_of_not_mem (h.tagFree.texts t ht)

-- All elements bind the placeholders that the conditionals leave in loop bodies.
theorem Stageable.bindsAll_residue {node : Node}
    (hn : node ∈ Node.everyAll
      (Node.residueAll ⟨params, .only .conditional, false⟩ (Template.parse source).nodes)) :
    node.BindsAll params := by
  match node with
  | .text t => trivial
  | .block head openTag closeTag body =>
    have hlawful : Node.LawfulAll
        (Node.residueAll ⟨params, .only .conditional, false⟩ (Template.parse source).nodes) :=
      Node.lawfulAll_residueAll_conditional h.lawfulAll
    have hread := Template.nodes_parse_expansion hlawful
    have hbinds := h.bindsAll _ (hread ▸ Node.block_mem_joinTexts hn)
    cases head with
    | loop header => simpa only [Node.BindsAll, Node.printAll_joinTexts] using hbinds
    | _ => trivial

-- The stages together expand every block once.
theorem Stageable.stages_eq_expansion :
    expandOnly .whereClause (expandOnly .setClause
      (expandOnly .loop (expandOnly .conditional source params) params) []) [] =
        Node.expansion ⟨params, .all, false⟩ (Template.parse source).nodes := by
  have hstage : ∀ kinds : Block.Kinds, kinds.conditional → kinds.whereClause = false →
      (kinds.setClause → kinds.loop) → ∀ kind,
        expandOnly kind (Node.expansion ⟨params, kinds, false⟩ (Template.parse source).nodes) params =
          Node.expansion ⟨params, kinds.union (.only kind), false⟩ (Template.parse source).nodes := by
    intro kinds hc hw hs kind
    have hclosed := Node.closedUnder_of_nestsWell h.nestsWell hc hw hs
    exact Node.expandOnly_expansion h.lawfulAll h.tagFree (h.values '<' (by simp)) hclosed kind
  have hloop := hstage (.only .conditional) rfl rfl (by decide) .loop
  have hset := hstage ⟨true, true, false, false⟩ rfl rfl (by decide) .setClause
  have hwhere := hstage ⟨true, true, true, false⟩ rfl rfl (by decide) .whereClause
  rw [expandOnly_clause (.inr rfl) _ [] params, expandOnly_clause (.inl rfl) _ [] params]
  calc
    expandOnly .whereClause (expandOnly .setClause
        (expandOnly .loop (expandOnly .conditional source params) params) params) params =
      expandOnly .whereClause (expandOnly .setClause
        (Node.expansion ⟨params, ⟨true, true, false, false⟩, false⟩ (Template.parse source).nodes)
        params) params := congrArg (fun t => expandOnly _ (expandOnly _ t params) params) hloop
    _ = expandOnly .whereClause
        (Node.expansion ⟨params, ⟨true, true, true, false⟩, false⟩ (Template.parse source).nodes)
        params := congrArg (expandOnly _ · params) hset
    _ = Node.expansion ⟨params, .all, false⟩ (Template.parse source).nodes := hwhere

-- No shield comes up in the filled text.
theorem Stageable.shieldChar_not_mem :
    Placeholder.shieldChar ∉ Placeholder.fillAll params
      (Node.expansion ⟨params, .all, false⟩ (Template.parse source).nodes) := by
  have hp := h.values Placeholder.shieldChar (by simp)
  have hsource : Placeholder.shieldChar ∉ Node.printAll (Template.parse source).nodes := by
    rw [Template.printAll_parse]
    exact h.source
  obtain ⟨htexts, hheads⟩ := Node.avoids_of_not_mem_printAll h.lawfulAll hsource (by decide)
  have hexpands : ∀ head ∈ Node.heads (Template.parse source).nodes,
      (⟨params, .all, false⟩ : Plan).expands head := by
    intro head hh
    simp only [Plan.expands, (h.tagFree.heads head hh).1, Bool.not_false, Bool.and_true]
    cases head <;> rfl
  refine Placeholder.not_mem_fillAll (by decide) ?_ hp
  exact Node.not_mem_expansion (by decide) (by simp) hp htexts fun head hh =>
    ⟨hexpands head hh, hheads head hh⟩

end Stageable

-- One walk over the tree gives the statement that the stages give.
theorem render_eq_staged (source : Text) (params : Params) (h : Stageable source params) :
    render source params = staged source params := by
  have hfill := Node.expansion_fill_eq (h.values '{' (by simp)) h.nestsWell fun _ => h.bindsAll_residue
  have hshield : Placeholder.unshield (Placeholder.fillAll params
      (Node.expansion ⟨params, .all, true⟩ (Template.parse source).nodes)) =
        Placeholder.fillAll params
          (Node.expansion ⟨params, .all, false⟩ (Template.parse source).nodes) := by
    rw [hfill]
    exact List.filter_eq_self.mpr fun c hc => Text.ne_of_not_mem h.shieldChar_not_mem hc
  rw [render_eq_expansion, hshield, staged, h.stages_eq_expansion]

-- The conditional that is left out of the loop takes the placeholder that no record binds with it.
theorem render_eq_staged_records :
    let inLoop := "#\x7br.k\x7d<if test=\x22b!=0\x22>$\x7bc\x7d</if>".toList
    let source := "<set>x=#\x7ba\x7d,</set><foreach item=\x22r\x22>".toList ++
      (inLoop ++ "</foreach>".toList)
    let params : Params := [("a".toList, .int 7),
      ("r".toList, .list [.record [("k".toList, .text "x".toList)], .record [("k".toList, .int 3)]])]
    Stageable source params ∧ render source params = staged source params := by
  intro inLoop source params
  have hvalues : ∀ c ∈ ['<', '\x7b', Placeholder.shieldChar], Params.Avoid params c := by
    simp only [List.forall_mem_cons]
    refine ⟨?_, ?_, ?_, by simp⟩ <;> exact Params.avoid_of_forall_mem (by decide +kernel)
  have h : Stageable source params := by
    refine ⟨⟨?_, ?_⟩, ?_, ?_, hvalues, ?_⟩
    all_goals decide +kernel
  exact ⟨h, render_eq_staged source params h⟩

end SqlPreview
