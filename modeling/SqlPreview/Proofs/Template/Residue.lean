import SqlPreview.Proofs.Template.Origin
import SqlPreview.Proofs.Template.RoundTrip

namespace SqlPreview.Node

mutual

-- The nodes that are left of a node when some kinds of block have been expanded.
def residue (plan : Plan) : Node → List Node
  | text t => [text t]
  | block head openTag closeTag body =>
    if plan.expands head then
      match head with
      | .conditional test =>
        if Condition.holds plan.params test then residueAll plan body else []
      | head => [text (plan.write head (expansion plan body))]
    else [block head openTag closeTag (residueAll plan body)]

def residueAll (plan : Plan) : List Node → List Node
  | [] => []
  | node :: rest => residue plan node ++ residueAll plan rest

end

@[simp]
theorem residueAll_nil (plan : Plan) : residueAll plan [] = [] := by
  simp only [residueAll]

@[simp]
theorem residueAll_text (plan : Plan) (t : Text) (rest : List Node) :
    residueAll plan (.text t :: rest) = .text t :: residueAll plan rest := by
  simp only [residueAll, residue, List.singleton_append]

-- A conditional leaves its body or nothing.
theorem residueAll_conditional {plan : Plan} {test : Text}
    (h : plan.expands (.conditional test)) (openTag closeTag : Text) (body rest : List Node) :
    residueAll plan (.block (.conditional test) openTag closeTag body :: rest) =
      (if Condition.holds plan.params test then residueAll plan body else []) ++
        residueAll plan rest := by
  simp only [residueAll, residue, h, if_true]

-- Every other expanded block leaves a text.
theorem residueAll_written {plan : Plan} {head : Block.Head} (h : plan.expands head)
    (hk : head.kind ≠ .conditional) (openTag closeTag : Text) (body rest : List Node) :
    residueAll plan (.block head openTag closeTag body :: rest) =
      .text (plan.write head (expansion plan body)) :: residueAll plan rest := by
  cases head with
  | conditional test => exact absurd rfl hk
  | _ => simp only [residueAll, residue, h, if_true, List.singleton_append]

theorem residueAll_kept {plan : Plan} {head : Block.Head} (h : plan.expands head = false)
    (openTag closeTag : Text) (body rest : List Node) :
    residueAll plan (.block head openTag closeTag body :: rest) =
      .block head openTag closeTag (residueAll plan body) :: residueAll plan rest := by
  simp [residueAll, residue, h]

theorem expansion_conditional {plan : Plan} {test : Text}
    (h : plan.expands (.conditional test)) (openTag closeTag : Text) (body rest : List Node) :
    expansion plan (.block (.conditional test) openTag closeTag body :: rest) =
      (if Condition.holds plan.params test then expansion plan body else []) ++
        expansion plan rest := by
  rw [expansion_block, if_pos h, Plan.write]

-- The residue prints as the text of the expansion.
theorem printAll_residueAll (plan : Plan) (nodes : List Node) :
    printAll (residueAll plan nodes) = expansion plan nodes := by
  induction nodes using row_induction with
  | nil => simp
  | text t rest ih => simp [ih]
  | block head openTag closeTag body rest ihBody ihRest =>
    cases he : plan.expands head with
    | false => rw [residueAll_kept he, expansion_block]; simp [he, ihBody, ihRest]
    | true =>
      by_cases hk : head.kind = .conditional
      · cases head with
        | conditional test =>
          rw [residueAll_conditional he, expansion_conditional he, printAll_append, ihRest]
          split <;> simp [ihBody]
        | _ => simp [Block.Head.kind] at hk
      · rw [residueAll_written he hk, expansion_block, if_pos he, printAll_text, ihRest]

-- A residue is lawful if the texts that have been written into it are calm.
theorem lawfulAll_residueAll {plan : Plan} {nodes : List Node} (hl : LawfulAll nodes)
    (hw : ∀ head openTag closeTag body, .block head openTag closeTag body ∈ everyAll nodes →
      plan.expands head → head.kind ≠ .conditional →
        Tag.isCalm (plan.write head (expansion plan body))) :
    LawfulAll (residueAll plan nodes) := by
  induction nodes using row_induction with
  | nil => simpa using hl
  | text t rest ih =>
    obtain ⟨ht, hrest⟩ := lawfulAll_text.mp hl
    rw [residueAll_text]
    refine lawfulAll_text.mpr ⟨ht, ih hrest fun head openTag closeTag body hb => ?_⟩
    exact hw head openTag closeTag body (by simp [hb])
  | block head openTag closeTag body rest ihBody ihRest =>
    obtain ⟨htags, hbody, hrest⟩ := lawfulAll_block.mp hl
    have hinner := ihBody hbody fun head openTag closeTag body hb =>
      hw head openTag closeTag body (by simp [hb])
    have hafter := ihRest hrest fun head openTag closeTag body hb =>
      hw head openTag closeTag body (by simp [hb])
    cases he : plan.expands head with
    | false =>
      rw [residueAll_kept he]
      exact lawfulAll_block.mpr ⟨htags, hinner, hafter⟩
    | true =>
      by_cases hk : head.kind = .conditional
      · cases head with
        | conditional test =>
          rw [residueAll_conditional he, lawfulAll_append]
          refine ⟨?_, hafter⟩
          split
          · exact hinner
          · exact lawfulAll_nil
        | _ => simp [Block.Head.kind] at hk
      · rw [residueAll_written he hk]
        exact lawfulAll_text.mpr ⟨hw head openTag closeTag body (by simp) he hk, hafter⟩

-- Expanding conditionals writes nothing new.
theorem lawfulAll_residueAll_conditional {params : Params} {fill : Bool} {nodes : List Node}
    (hl : LawfulAll nodes) : LawfulAll (residueAll ⟨params, .only .conditional, fill⟩ nodes) := by
  refine lawfulAll_residueAll hl fun head _ _ _ _ he hk => ?_
  cases head with
  | conditional test => exact absurd rfl hk
  | _ => cases he

-- A residue, expanded further, becomes what all kinds together give. A block that has been written
-- must not hold any block that only the later kinds would expand.
theorem expansion_residueAll {params : Params} {first later : Block.Kinds} {fill : Bool}
    {nodes : List Node}
    (h : ∀ head openTag closeTag body, .block head openTag closeTag body ∈ everyAll nodes →
      first.contains head.kind → head.kind ≠ .conditional →
        ∀ inner ∈ heads body, later.contains inner.kind → first.contains inner.kind) :
    expansion ⟨params, later, fill⟩ (residueAll ⟨params, first, fill⟩ nodes) =
      expansion ⟨params, first.union later, fill⟩ nodes := by
  induction nodes using row_induction with
  | nil => simp
  | text t rest ih =>
    rw [residueAll_text, expansion_text, expansion_text, ih fun head openTag closeTag body hb =>
      h head openTag closeTag body (by simp [hb])]
  | block head openTag closeTag body rest ihBody ihRest =>
    have hinner := ihBody fun head openTag closeTag body hb =>
      h head openTag closeTag body (by simp [hb])
    have hafter := ihRest fun head openTag closeTag body hb =>
      h head openTag closeTag body (by simp [hb])
    cases he : (⟨params, first, fill⟩ : Plan).expands head with
    | false =>
      have hlater : (⟨params, later, fill⟩ : Plan).expands head =
          (⟨params, first.union later, fill⟩ : Plan).expands head := by
        simp only [Plan.expands, Block.Kinds.contains_union] at he ⊢
        cases hl : head.lacksItem <;> simp [hl] at he ⊢
        simp [he]
      rw [residueAll_kept he, expansion_block, expansion_block, hinner, hafter, hlater]
      rfl
    | true =>
      have hunion : (⟨params, first.union later, fill⟩ : Plan).expands head := by
        simp only [Plan.expands, Block.Kinds.contains_union, Bool.and_eq_true, Bool.or_eq_true] at he ⊢
        exact ⟨.inl he.1, he.2⟩
      by_cases hk : head.kind = .conditional
      · cases head with
        | conditional test =>
          rw [residueAll_conditional he, expansion_conditional hunion, expansion_append, hafter]
          split
          · rw [hinner]
          · rfl
        | _ => simp [Block.Head.kind] at hk
      · -- the body of a written block is the same text under the first kinds and under all of them
        have hfirst : first.contains head.kind := (Bool.and_eq_true _ _ ▸ he).1
        have hbody : expansion ⟨params, first, fill⟩ body =
            expansion ⟨params, first.union later, fill⟩ body := by
          refine expansion_congr fun inner hi => ⟨?_, fun _ _ => rfl⟩
          have hnested := h head openTag closeTag body (by simp) hfirst hk inner hi
          simp only [Plan.expands, Block.Kinds.contains_union]
          cases hl : later.contains inner.kind with
          | false => simp
          | true => simp [hnested hl]
        rw [residueAll_written he hk, expansion_text, expansion_block, if_pos hunion, hafter, hbody]
        rfl

theorem expansion_reverse_settleAll (plan : Plan) (nodes before : List Node) :
    expansion plan (settleAll before nodes).reverse =
      expansion plan before.reverse ++ expansion plan nodes := by
  induction nodes using row_induction generalizing before with
  | nil => simp [settleAll]
  | text t rest ih =>
    rw [settleAll, settle, ih, expansion_reverse_pushText, expansion_text, List.append_assoc]
  | block head openTag closeTag body rest ihBody ihRest =>
    have hbody := ihBody []
    rw [List.reverse_nil, expansion_nil, List.nil_append] at hbody
    rw [settleAll, settle, ihRest, List.reverse_cons, expansion_append, expansion_block,
      expansion_block, hbody, expansion_nil, List.append_nil, List.append_assoc]

-- Putting neighbouring texts together does not change the expansion.
theorem expansion_joinTexts (plan : Plan) (nodes : List Node) :
    expansion plan (joinTexts nodes) = expansion plan nodes := by
  rw [joinTexts, expansion_reverse_settleAll, List.reverse_nil, expansion_nil, List.nil_append]

theorem printAll_joinTexts (nodes : List Node) : printAll (joinTexts nodes) = printAll nodes := by
  rw [← expansion_none [] false, expansion_joinTexts, expansion_none]

theorem block_mem_pushText {t : Text} {before : List Node} {head : Block.Head}
    {openTag closeTag : Text} {body : List Node}
    (h : .block head openTag closeTag body ∈ everyAll before) :
    .block head openTag closeTag body ∈ everyAll (pushText t before) := by
  cases before with
  | nil => simp at h
  | cons node before =>
    simp only [pushText]
    split
    · exact h
    · cases node with
      | text s => simpa using h
      | block head' openTag' closeTag' body' => exact List.mem_cons_of_mem _ h

theorem block_mem_settleAll_of_before {nodes before : List Node} {head : Block.Head}
    {openTag closeTag : Text} {body : List Node}
    (h : .block head openTag closeTag body ∈ everyAll before) :
    .block head openTag closeTag body ∈ everyAll (settleAll before nodes) := by
  induction nodes generalizing before with
  | nil => exact h
  | cons node rest ih =>
    rw [settleAll]
    cases node with
    | text t => exact ih (block_mem_pushText h)
    | block head' openTag' closeTag' body' => exact ih (by simp [settle, h])

-- The blocks of a tree are there when texts have been put together, in their bodies as well.
theorem block_mem_settleAll {nodes before : List Node} {head : Block.Head}
    {openTag closeTag : Text} {body : List Node}
    (h : .block head openTag closeTag body ∈ everyAll nodes) :
    .block head openTag closeTag (joinTexts body) ∈ everyAll (settleAll before nodes) := by
  induction nodes using row_induction generalizing before with
  | nil => simp at h
  | text t rest ih => exact ih (by simpa using h)
  | block head' openTag' closeTag' body' rest ihBody ihRest =>
    rw [everyAll_block, List.mem_cons, List.mem_append] at h
    rw [settleAll, settle]
    rcases h with h | h | h
    · cases h
      exact block_mem_settleAll_of_before (by simp [joinTexts])
    · have hinner : .block head openTag closeTag (joinTexts body) ∈ everyAll (settleAll [] body') :=
        ihBody h
      have hbody := mem_everyAll_reverse.mpr hinner
      exact block_mem_settleAll_of_before (by simp [hbody])
    · exact ihRest h

theorem block_mem_joinTexts {nodes : List Node} {head : Block.Head} {openTag closeTag : Text}
    {body : List Node} (h : .block head openTag closeTag body ∈ everyAll nodes) :
    .block head openTag closeTag (joinTexts body) ∈ everyAll (joinTexts nodes) :=
  mem_everyAll_reverse.mpr (block_mem_settleAll h)

end SqlPreview.Node

namespace SqlPreview.Template

-- The text of an expansion is read as the residue, with its neighbouring texts put together.
theorem nodes_parse_expansion {plan : Plan} {nodes : List Node}
    (h : Node.LawfulAll (Node.residueAll plan nodes)) :
    (parse (Node.expansion plan nodes)).nodes = Node.joinTexts (Node.residueAll plan nodes) := by
  rw [← Node.printAll_residueAll, parse_printAll h]

-- Expanding what has been printed is expanding the tree itself.
theorem expand_parse_printAll {nodes : List Node} (h : Node.LawfulAll nodes) (params : Params)
    (kinds : Block.Kinds) :
    (parse (Node.printAll nodes)).expand params kinds = Node.expansion ⟨params, kinds, false⟩ nodes := by
  rw [parse_printAll h]
  exact Node.expansion_joinTexts ⟨params, kinds, false⟩ nodes

-- Rendering it as well.
theorem render_printAll {nodes : List Node} (h : Node.LawfulAll nodes) (params : Params) :
    SqlPreview.render (Node.printAll nodes) params = Statement.tidy (Placeholder.unshield
      (Placeholder.fillAll params (Node.expansion ⟨params, .all, true⟩ nodes))) := by
  rw [render_eq_expansion, parse_printAll h, Node.expansion_joinTexts]

-- Conditionals may be expanded ahead of any kinds of block, and the text that they leave read again, if
-- no text of the tree can become part of a tag where a conditional is taken out.
theorem expand_parse_expandOnly (source : Text) (params : Params) (kinds : Block.Kinds)
    (h : ∀ t ∈ Node.texts (parse source).nodes, Tag.isCalm t) :
    (parse source).expand params ((Block.Kinds.only .conditional).union kinds) =
      (parse (expandOnly .conditional source params)).expand params kinds := by
  have hlawful : Node.LawfulAll (parse source).nodes := lawfulAll_parse h
  have hfirst : expandOnly .conditional source params =
      Node.printAll (Node.residueAll ⟨params, .only .conditional, false⟩ (parse source).nodes) :=
    (Node.printAll_residueAll _ _).symm
  rw [hfirst, expand_parse_printAll (Node.lawfulAll_residueAll_conditional hlawful)]
  refine (Node.expansion_residueAll fun head _ _ _ _ hk hne => ?_).symm
  rw [Block.Kinds.contains_only, beq_iff_eq] at hk
  exact absurd hk.symm hne

-- Conditionals in a loop, around it and around a clause: one body is empty, one ends the line that the
-- clause puts a comma behind, one holds a tag that closes nothing.
theorem expand_parse_expandOnly_nested :
    let inLoop := "<foreach item=\x22o\x22><if test=\x22b != 0\x22>#\x7bo\x7d</if></foreach>".toList
    let source := "1 < 2<if test=\x22a != null\x22><set>x = ".toList ++
      (inLoop ++ "<if test=\x22c != \x27\x27\x22>,\n</if>\ny = 2,</set></if>".toList)
    let params : Params := [("a".toList, .int 1), ("b".toList, .int 1),
      ("o".toList, .text "3,4".toList)]
    (∀ t ∈ Node.texts (parse source).nodes, Tag.isCalm t) ∧
      (parse source).expand params ⟨true, true, true, false⟩ = "1 < 2SET\nx = (3,4),\ny = 2".toList ∧
      (parse source).expand params ⟨true, true, true, false⟩ =
        (parse (expandOnly .conditional source params)).expand params ⟨false, true, true, false⟩ := by
  intro inLoop source params
  have hcalm : ∀ t ∈ Node.texts (parse source).nodes, Tag.isCalm t := by decide +kernel
  have hexpand := expand_parse_expandOnly source params ⟨false, true, true, false⟩ hcalm
  exact ⟨hcalm, by decide +kernel, hexpand⟩

end SqlPreview.Template
