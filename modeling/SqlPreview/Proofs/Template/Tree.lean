import SqlPreview.Template.Expansion

namespace SqlPreview

-- A loop without an item cannot be unrolled; every other block can be expanded.
def Block.Head.lacksItem : Block.Head → Bool
  | .loop header => header.item.isNone
  | _ => false

namespace Node

-- A row of nodes is empty, or begins with a text, or begins with a block, whose body is a row again.
@[elab_as_elim]
theorem row_induction {motive : List Node → Prop} (nil : motive [])
    (text : ∀ t rest, motive rest → motive (.text t :: rest))
    (block : ∀ head openTag closeTag body rest, motive body → motive rest →
      motive (.block head openTag closeTag body :: rest)) :
    ∀ nodes, motive nodes
  | [] => nil
  | .text t :: rest => text t rest (row_induction nil text block rest)
  | .block head openTag closeTag body :: rest =>
      block head openTag closeTag body rest (row_induction nil text block body)
        (row_induction nil text block rest)

mutual

-- A node and all nodes inside it.
def every : Node → List Node
  | text t => [text t]
  | block head openTag closeTag body => block head openTag closeTag body :: everyAll body

def everyAll : List Node → List Node
  | [] => []
  | node :: rest => every node ++ everyAll rest

end

@[simp]
theorem everyAll_nil : everyAll [] = [] := by
  simp only [everyAll]

@[simp]
theorem everyAll_text (t : Text) (rest : List Node) :
    everyAll (.text t :: rest) = .text t :: everyAll rest := by
  simp only [everyAll, every, List.cons_append, List.nil_append]

@[simp]
theorem everyAll_block (head : Block.Head) (openTag closeTag : Text) (body rest : List Node) :
    everyAll (.block head openTag closeTag body :: rest) =
      .block head openTag closeTag body :: (everyAll body ++ everyAll rest) := by
  simp only [everyAll, every, List.cons_append]

@[simp]
theorem everyAll_append (first second : List Node) :
    everyAll (first ++ second) = everyAll first ++ everyAll second := by
  induction first with
  | nil => simp
  | cons node rest ih => simp only [List.cons_append, everyAll, ih, List.append_assoc]

-- The order of a row does not matter for what is in it.
theorem mem_everyAll_reverse {node : Node} {nodes : List Node} :
    node ∈ everyAll nodes.reverse ↔ node ∈ everyAll nodes := by
  induction nodes with
  | nil => simp
  | cons first rest ih =>
    rw [List.reverse_cons, everyAll_append, List.mem_append, ih]
    simp only [everyAll, List.append_nil, List.mem_append]
    exact or_comm

-- What is inside the body of a block of a tree is in the tree.
theorem mem_everyAll_of_mem_body {head : Block.Head} {openTag closeTag : Text}
    {body nodes : List Node} {node : Node}
    (hb : .block head openTag closeTag body ∈ everyAll nodes) (hn : node ∈ everyAll body) :
    node ∈ everyAll nodes := by
  induction nodes using row_induction with
  | nil => simp at hb
  | text t rest ih => exact everyAll_text t rest ▸ List.mem_cons_of_mem _ (ih (by simpa using hb))
  | block head' openTag' closeTag' inner rest ihInner ihRest =>
    rw [everyAll_block, List.mem_cons, List.mem_append] at hb ⊢
    rcases hb with hb | hb | hb
    · cases hb
      exact .inr (.inl hn)
    · exact .inr (.inl (ihInner hb))
    · exact .inr (.inr (ihRest hb))

def head? : Node → Option Block.Head
  | text _ => none
  | block head _ _ _ => some head

def text? : Node → Option Text
  | text t => some t
  | block .. => none

-- The heads of all blocks of a tree.
def heads (nodes : List Node) : List Block.Head :=
  (everyAll nodes).filterMap head?

-- The texts of a tree, those between blocks and those inside them.
def texts (nodes : List Node) : List Text :=
  (everyAll nodes).filterMap text?

@[simp]
theorem heads_nil : heads [] = [] := by
  simp [heads]

@[simp]
theorem heads_text (t : Text) (rest : List Node) : heads (.text t :: rest) = heads rest := by
  rw [heads, everyAll_text, List.filterMap_cons_none rfl, heads]

@[simp]
theorem heads_block (head : Block.Head) (openTag closeTag : Text) (body rest : List Node) :
    heads (.block head openTag closeTag body :: rest) = head :: (heads body ++ heads rest) := by
  simp [heads, head?]

theorem length_heads (nodes : List Node) : (heads nodes).length = blockCountAll nodes := by
  induction nodes using row_induction with
  | nil => simp [blockCountAll]
  | text t rest ih => rw [heads_text, ih, blockCountAll, blockCount, Nat.zero_add]
  | block head openTag closeTag body rest ihBody ihRest =>
    rw [heads_block, List.length_cons, List.length_append, ihBody, ihRest, blockCountAll, blockCount,
      Nat.add_comm _ 1, Nat.add_assoc]

@[simp]
theorem texts_nil : texts [] = [] := by
  simp [texts]

@[simp]
theorem texts_text (t : Text) (rest : List Node) : texts (.text t :: rest) = t :: texts rest := by
  simp [texts, text?]

@[simp]
theorem texts_block (head : Block.Head) (openTag closeTag : Text) (body rest : List Node) :
    texts (.block head openTag closeTag body :: rest) = texts body ++ texts rest := by
  rw [texts, everyAll_block, List.filterMap_cons_none rfl, List.filterMap_append, texts, texts]

@[simp]
theorem printAll_nil : printAll [] = [] := by
  simp only [printAll]

@[simp]
theorem printAll_text (t : Text) (rest : List Node) :
    printAll (.text t :: rest) = t ++ printAll rest := by
  simp only [printAll, print]

@[simp]
theorem printAll_block (head : Block.Head) (openTag closeTag : Text) (body rest : List Node) :
    printAll (.block head openTag closeTag body :: rest) =
      openTag ++ (printAll body ++ (closeTag ++ printAll rest)) := by
  simp only [printAll, print, List.append_assoc]

@[simp]
theorem printAll_append (first second : List Node) :
    printAll (first ++ second) = printAll first ++ printAll second := by
  induction first with
  | nil => simp
  | cons node rest ih => simp only [List.cons_append, printAll, ih, List.append_assoc]

end Node

namespace Plan

-- Is a block with this head expanded?
def expands (plan : Plan) (head : Block.Head) : Bool :=
  plan.kinds.contains head.kind && !head.lacksItem

theorem expands_of_contains {plan : Plan} {head : Block.Head} (hk : plan.kinds.contains head.kind)
    (hi : head.lacksItem = false) : plan.expands head := by
  rw [expands, hk, hi]
  rfl

-- What is written for an expanded block whose body has become `inner`.
def write (plan : Plan) (head : Block.Head) (inner : Text) : Text :=
  match head with
  | .conditional test => if Condition.holds plan.params test then inner else []
  | .loop header =>
    match header.item with
    | some item => Loop.unroll header item inner (plan.elements item) plan.outer
    | none => []
  | .setClause => SetClause.ofBody inner
  | .whereClause => WhereClause.ofBody inner

end Plan

namespace Node

-- The text of an expansion, without its events.
def expansion (plan : Plan) (nodes : List Node) : Text :=
  (expandAll plan nodes).text

@[simp]
theorem expansion_nil (plan : Plan) : expansion plan [] = [] := by
  simp only [expansion, expandAll, Rendered.empty]

@[simp]
theorem expansion_text (plan : Plan) (t : Text) (rest : List Node) :
    expansion plan (.text t :: rest) = t ++ expansion plan rest := by
  simp only [expansion, expandAll, expand, Rendered.append]

-- A block is written for what it stands for, or with its tags around its expanded body.
theorem expansion_block (plan : Plan) (head : Block.Head) (openTag closeTag : Text)
    (body rest : List Node) :
    expansion plan (.block head openTag closeTag body :: rest) =
      (if plan.expands head then plan.write head (expansion plan body)
        else openTag ++ (expansion plan body ++ closeTag)) ++ expansion plan rest := by
  simp only [expansion, expandAll, Rendered.append]
  congr 1
  cases head with
  | conditional test =>
    cases hk : plan.kinds.conditional <;>
      simp [expand, Plan.expands, Plan.write, Block.Kinds.contains, Block.Head.kind,
        Block.Head.lacksItem, Rendered.map, Rendered.empty, apply_ite Rendered.text, hk]
  | loop header =>
    obtain ⟨item, opening, separator, closing⟩ := header
    cases item <;> cases hk : plan.kinds.loop <;>
      simp [expand, Plan.expands, Plan.write, Block.Kinds.contains, Block.Head.kind,
        Block.Head.lacksItem, Rendered.map, hk]
  | setClause =>
    cases hk : plan.kinds.setClause <;>
      simp [expand, Plan.expands, Plan.write, Block.Kinds.contains, Block.Head.kind,
        Block.Head.lacksItem, Rendered.map, hk]
  | whereClause =>
    cases hk : plan.kinds.whereClause <;>
      simp [expand, Plan.expands, Plan.write, Block.Kinds.contains, Block.Head.kind,
        Block.Head.lacksItem, Rendered.map, hk]

theorem expansion_loop {plan : Plan} {header : Loop.Header} {item : Text} (hk : plan.kinds.loop)
    (hi : header.item = some item) (openTag closeTag : Text) (body rest : List Node) :
    expansion plan (.block (.loop header) openTag closeTag body :: rest) =
      Loop.unroll header item (expansion plan body) (plan.elements item) plan.outer ++
        expansion plan rest := by
  have hexpands : plan.expands (.loop header) :=
    Plan.expands_of_contains hk (by simp [Block.Head.lacksItem, hi])
  rw [expansion_block, if_pos hexpands]
  simp only [Plan.write, hi]

theorem expansion_append (plan : Plan) (first second : List Node) :
    expansion plan (first ++ second) = expansion plan first ++ expansion plan second := by
  induction first with
  | nil => simp
  | cons node rest ih =>
    simp only [expansion, List.cons_append, expandAll, Rendered.append, List.append_assoc] at ih ⊢
    rw [ih]

-- A text that joins the last node, or becomes a node, stands behind the nodes before it.
theorem expansion_reverse_pushText (plan : Plan) (t : Text) (before : List Node) :
    expansion plan (pushText t before).reverse = expansion plan before.reverse ++ t := by
  cases before with
  | nil =>
    simp only [pushText]
    split <;> simp [*]
  | cons node before =>
    simp only [pushText]
    split
    · simp [*]
    · cases node <;> simp [expansion_append, expansion_block]

-- A block around some place of a tree, with the nodes on both sides of it.
structure Frame where
  left : List Node
  head : Block.Head
  openTag : Text
  closeTag : Text
  right : List Node

-- The tree with nodes put into a place, given by the blocks around it, outermost first.
def plug : List Frame → List Node → List Node
  | [], nodes => nodes
  | frame :: path, nodes =>
    frame.left ++ .block frame.head frame.openTag frame.closeTag (plug path nodes) :: frame.right

-- The text of an expansion around the text of a place.
def around (plan : Plan) : List Frame → Text → Text
  | [], t => t
  | frame :: path, t =>
    expansion plan frame.left ++
      ((if plan.expands frame.head then plan.write frame.head (around plan path t)
        else frame.openTag ++ (around plan path t ++ frame.closeTag)) ++ expansion plan frame.right)

theorem expansion_plug (plan : Plan) (path : List Frame) (nodes : List Node) :
    expansion plan (plug path nodes) = around plan path (expansion plan nodes) := by
  induction path with
  | nil => rfl
  | cons frame path ih => rw [plug, expansion_append, expansion_block, ih, around]

-- Two plans that expand the same blocks of a tree, and write the same for them, give the same text.
theorem expansion_congr {plan plan' : Plan} {nodes : List Node}
    (h : ∀ head ∈ heads nodes, plan.expands head = plan'.expands head ∧
      (plan.expands head → ∀ inner, plan.write head inner = plan'.write head inner)) :
    expansion plan nodes = expansion plan' nodes := by
  induction nodes using row_induction with
  | nil => simp
  | text t rest ih =>
    rw [heads_text] at h
    rw [expansion_text, expansion_text, ih h]
  | block head openTag closeTag body rest ihBody ihRest =>
    rw [heads_block, List.forall_mem_cons, List.forall_mem_append] at h
    obtain ⟨⟨hexpands, hwrite⟩, hbody, hrest⟩ := h
    rw [expansion_block, expansion_block, ihBody hbody, ihRest hrest, ← hexpands]
    split
    · next he => rw [hwrite he]
    · rfl

-- Where no block is expanded, all of them are printed.
theorem expansion_eq_printAll {plan : Plan} {nodes : List Node}
    (h : ∀ head ∈ heads nodes, plan.expands head = false) : expansion plan nodes = printAll nodes := by
  induction nodes using row_induction with
  | nil => simp
  | text t rest ih =>
    rw [expansion_text, printAll_text, ih (by simpa using h)]
  | block head openTag closeTag body rest ihBody ihRest =>
    simp only [heads_block, List.mem_cons, List.mem_append, forall_eq_or_imp] at h
    obtain ⟨hh, h⟩ := h
    rw [expansion_block, printAll_block, ihBody fun head hb => h head (.inl hb),
      ihRest fun head hb => h head (.inr hb), hh]
    simp

theorem expansion_none (params : Params) (fill : Bool) (nodes : List Node) :
    expansion ⟨params, .none, fill⟩ nodes = printAll nodes := by
  refine expansion_eq_printAll fun head _ => ?_
  cases head <;> rfl

end Node

-- What a render does with the text of the full expansion.
theorem render_eq_expansion (source : Text) (params : Params) :
    render source params = Statement.tidy (Placeholder.unshield (Placeholder.fillAll params
      (Node.expansion ⟨params, .all, true⟩ (Template.parse source).nodes))) :=
  rfl

end SqlPreview
