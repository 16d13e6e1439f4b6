import SqlPreview.Proofs.Template.Conservation

namespace SqlPreview

namespace Block.Head

-- The item of a loop that can be unrolled.
def item? : Block.Head → Option Text
  | .loop header => header.item
  | _ => none

-- A conditional drops its body if its test fails.
def drops (params : Params) : Block.Head → Bool
  | .conditional test => !Condition.holds params test
  | _ => false

end Block.Head

namespace Rendered

theorem empty_append (r : Rendered) : empty.append r = r :=
  rfl

theorem append_assoc (one two three : Rendered) :
    (one.append two).append three = one.append (two.append three) := by
  simp only [append, List.append_assoc]

end Rendered

namespace Node

-- A block of a tree by its head, with the heads of the blocks around it, the innermost first.
structure Standing where
  above : List Block.Head
  head : Block.Head

-- No conditional around the block drops it.
def Standing.isReached (params : Params) (standing : Standing) : Bool :=
  !standing.above.any (·.drops params)

mutual

-- The blocks of a node in the order in which they end: those in a body, from left to right, before the
-- block itself.
def byEnd (above : List Block.Head) : Node → List Standing
  | text _ => []
  | block head _ _ body => byEndAll (head :: above) body ++ [⟨above, head⟩]

def byEndAll (above : List Block.Head) : List Node → List Standing
  | [] => []
  | node :: rest => byEnd above node ++ byEndAll above rest

end

theorem byEndAll_text (above : List Block.Head) (t : Text) (rest : List Node) :
    byEndAll above (.text t :: rest) = byEndAll above rest := by
  rw [byEndAll, byEnd, List.nil_append]

theorem byEndAll_block (above : List Block.Head) (head : Block.Head) (openTag closeTag : Text)
    (body rest : List Node) :
    byEndAll above (.block head openTag closeTag body :: rest) =
      byEndAll (head :: above) body ++ ⟨above, head⟩ :: byEndAll above rest := by
  rw [byEndAll, byEnd, List.append_assoc, List.singleton_append]

-- Every block ends once.
theorem map_head_byEndAll_perm (above : List Block.Head) (nodes : List Node) :
    ((byEndAll above nodes).map Standing.head).Perm (heads nodes) := by
  induction nodes using row_induction generalizing above with
  | nil => rw [byEndAll, heads_nil, List.map_nil]
  | text t rest ih =>
    rw [byEndAll_text, heads_text]
    exact ih above
  | block head openTag closeTag body rest ihBody ihRest =>
    rw [byEndAll_block, heads_block, List.map_append, List.map_cons]
    apply List.perm_middle.trans
    apply List.Perm.cons
    exact (ihBody _).append (ihRest _)

theorem suffix_above_of_mem_byEndAll {above : List Block.Head} {nodes : List Node} {standing : Standing}
    (h : standing ∈ byEndAll above nodes) : above <:+ standing.above := by
  induction nodes using row_induction generalizing above with
  | nil =>
    rw [byEndAll] at h
    cases h
  | text t rest ih =>
    rw [byEndAll_text] at h
    exact ih h
  | block head openTag closeTag body rest ihBody ihRest =>
    rw [byEndAll_block, List.mem_append, List.mem_cons] at h
    rcases h with h | rfl | h
    · exact (List.suffix_cons head above).trans (ihBody h)
    · exact List.suffix_refl _
    · exact ihRest h

-- The items of the loops that are reached, in the order in which the loops end.
def unrolled (params : Params) (above : List Block.Head) (nodes : List Node) : List Text :=
  (((byEndAll above nodes).filter (·.isReached params)).map Standing.head).filterMap Block.Head.item?

section Unrolled

variable {params : Params} {above : List Block.Head}

theorem unrolled_text (t : Text) (rest : List Node) :
    unrolled params above (.text t :: rest) = unrolled params above rest := by
  rw [unrolled, byEndAll_text, unrolled]

-- Nothing is reached in a body that is dropped.
theorem unrolled_of_drops (h : above.any (·.drops params)) (nodes : List Node) :
    unrolled params above nodes = [] := by
  have hnone : (byEndAll above nodes).filter (·.isReached params) = [] := by
    apply List.filter_eq_nil_iff.mpr
    intro standing hs
    obtain ⟨head, hh, hd⟩ := List.any_eq_true.mp h
    have hany : standing.above.any (·.drops params) :=
      List.any_eq_true.mpr ⟨head, (suffix_above_of_mem_byEndAll hs).subset hh, hd⟩
    simp [Standing.isReached, hany]
  rw [unrolled, hnone, List.map_nil, List.filterMap_nil]

theorem unrolled_block (h : above.any (·.drops params) = false) (head : Block.Head)
    (openTag closeTag : Text) (body rest : List Node) :
    unrolled params above (.block head openTag closeTag body :: rest) =
      (if head.drops params then [] else unrolled params (head :: above) body) ++
        (head.item?.toList ++ unrolled params above rest) := by
  have hbody : unrolled params (head :: above) body =
      if head.drops params then [] else unrolled params (head :: above) body := by
    split
    · next hd => exact unrolled_of_drops (by simp [hd]) body
    · rfl
  have hself : Standing.isReached params ⟨above, head⟩ = true := by simp [Standing.isReached, h]
  rw [← hbody, unrolled, byEndAll_block, List.filter_append, List.filter_cons_of_pos hself,
    List.map_append, List.map_cons, List.filterMap_append]
  cases hi : head.item? with
  | none => rw [List.filterMap_cons_none hi, Option.toList_none, List.nil_append, unrolled, unrolled]
  | some item =>
    rw [List.filterMap_cons_some hi, Option.toList_some, List.singleton_append, unrolled, unrolled]

end Unrolled

-- What is told of a loop.
def unrolling (params : Params) (item : Text) : Event :=
  .unrolling item (Loop.elements (params.get? item)).length

section Events

variable {params : Params} {fill : Bool}

-- A block tells what its body tells, unless it drops the body, and then of itself if it is a loop.
theorem events_expand_block (head : Block.Head) (openTag closeTag : Text) (body : List Node) :
    (expand ⟨params, .all, fill⟩ (.block head openTag closeTag body)).events =
      (if head.drops params then [] else (expandAll ⟨params, .all, fill⟩ body).events) ++
        head.item?.toList.map (unrolling params) := by
  cases head with
  | conditional test =>
    cases h : Condition.holds params test <;>
      simp [expand, Block.Kinds.all, Block.Head.drops, Block.Head.item?, Rendered.empty, h]
  | loop header =>
    obtain ⟨item, opening, separator, closing⟩ := header
    cases item <;>
      simp [expand, Block.Kinds.all, Block.Head.drops, Block.Head.item?, Rendered.map, unrolling,
        Plan.elements]
  | setClause => simp [expand, Block.Kinds.all, Block.Head.drops, Block.Head.item?, Rendered.map]
  | whereClause => simp [expand, Block.Kinds.all, Block.Head.drops, Block.Head.item?, Rendered.map]

theorem events_expandAll_cons (plan : Plan) (node : Node) (rest : List Node) :
    (expandAll plan (node :: rest)).events = (expand plan node).events ++ (expandAll plan rest).events := by
  rw [expandAll]
  rfl

-- A full expansion tells the loops that it reaches.
theorem events_expandAll {above : List Block.Head} (h : above.any (·.drops params) = false)
    (nodes : List Node) :
    (expandAll ⟨params, .all, fill⟩ nodes).events =
      (unrolled params above nodes).map (unrolling params) := by
  induction nodes using row_induction generalizing above with
  | nil =>
    rw [expandAll]
    simp [Rendered.empty, unrolled, byEndAll]
  | text t rest ih =>
    rw [unrolled_text, ← ih h, events_expandAll_cons, expand, List.nil_append]
  | block head openTag closeTag body rest ihBody ihRest =>
    rw [unrolled_block h, List.map_append, List.map_append, ← ihRest h, events_expandAll_cons,
      events_expand_block, List.append_assoc]
    congr 1
    split
    · rfl
    · next hd =>
      apply ihBody
      simpa [hd] using h

end Events

section Plug

variable (plan : Plan)

theorem expandAll_append (first second : List Node) :
    expandAll plan (first ++ second) = (expandAll plan first).append (expandAll plan second) := by
  induction first with
  | nil =>
    rw [List.nil_append, expandAll.eq_1]
    exact (Rendered.empty_append _).symm
  | cons node rest ih => rw [List.cons_append, expandAll, ih, expandAll, Rendered.append_assoc]

-- What a block becomes depends on what its body becomes.
theorem expand_block_congr {body body' : List Node} (h : expandAll plan body = expandAll plan body')
    (head : Block.Head) (openTag closeTag : Text) :
    expand plan (.block head openTag closeTag body) = expand plan (.block head openTag closeTag body') := by
  simp only [expand, h]

theorem expandAll_plug_congr {nodes nodes' : List Node}
    (h : expandAll plan nodes = expandAll plan nodes') (path : List Frame) :
    expandAll plan (plug path nodes) = expandAll plan (plug path nodes') := by
  induction path with
  | nil => exact h
  | cons frame path ih =>
    rw [plug, plug, expandAll_append, expandAll_append, expandAll, expandAll,
      expand_block_congr plan ih]

end Plug

-- A conditional whose test fails may as well not be there, wherever it stands and whatever it holds.
theorem expandAll_plug_dropped {params : Params} {test : Text} (h : Condition.holds params test = false)
    (fill : Bool) (path : List Frame) (left body right : List Node) (openTag closeTag : Text) :
    expandAll ⟨params, .all, fill⟩
        (plug path (left ++ .block (.conditional test) openTag closeTag body :: right)) =
      expandAll ⟨params, .all, fill⟩ (plug path (left ++ right)) := by
  apply expandAll_plug_congr
  have hblock : expand ⟨params, .all, fill⟩ (.block (.conditional test) openTag closeTag body) =
      .empty := by
    simp [expand, Block.Kinds.all, h]
  rw [expandAll_append, expandAll_append, expandAll, hblock, Rendered.empty_append]

end Node

namespace Template

-- All that is told of reading a template and rendering it.
def log (params : Params) (template : Template) : List Event :=
  template.issueEvents ++ (template.rendered params).events

theorem log_eq (params : Params) (template : Template) :
    template.log params =
      template.issues.map .malformed ++
        ((Node.unrolled params [] template.nodes).map (Node.unrolling params) ++
          [.rendered (Text.byteLength template.source) params.length template.blockCount
            template.issues.length (template.render params)]) := by
  have hevents : (Node.expandAll ⟨params, .all, true⟩ template.nodes).events =
      (Node.unrolled params [] template.nodes).map (Node.unrolling params) :=
    Node.events_expandAll rfl template.nodes
  rw [← hevents]
  rfl

-- The levels and the targets of the log.
theorem map_level_target_log (params : Params) (template : Template) :
    (template.log params).map (fun event => (event.level, event.target)) =
      List.replicate template.issues.length (.debug, "sqlpeek.parse".toList) ++
        (List.replicate (Node.unrolled params [] template.nodes).length
            (.trace, "sqlpeek.render".toList) ++
          [(.debug, "sqlpeek.render".toList)]) := by
  rw [log_eq, List.map_append, List.map_append, List.map_map, List.map_map]
  congr 1
  · exact List.map_eq_replicate_iff.mpr fun _ _ => rfl
  · congr 1
    exact List.map_eq_replicate_iff.mpr fun _ _ => rfl

-- The log of a source holds its issues in the order of their places, then every loop that stands in no
-- conditional whose test fails, once and in the order in which the loops end, then the render. A
-- conditional whose test fails leaves neither text nor event, whatever its body is.
theorem log_parse (source : Text) (params : Params) :
    let template := parse source
    let items := Node.unrolled params [] template.nodes
    template.log params =
        template.issues.map .malformed ++
          (items.map (fun item => .unrolling item (Loop.elements (params.get? item)).length) ++
            [.rendered (Text.byteLength source) params.length template.blockCount
              template.issues.length (SqlPreview.render source params)]) ∧
      (template.log params).map (fun event => (event.level, event.target)) =
        List.replicate template.issues.length (.debug, "sqlpeek.parse".toList) ++
          (List.replicate items.length (.trace, "sqlpeek.render".toList) ++
            [(.debug, "sqlpeek.render".toList)]) ∧
      (template.issues.Pairwise fun one other => one.offset ≤ other.offset) ∧
      ((Node.byEndAll [] template.nodes).map Node.Standing.head).Perm (Node.heads template.nodes) ∧
      ∀ path left test openTag closeTag body right, Condition.holds params test = false →
        Node.expandAll ⟨params, .all, true⟩
            (Node.plug path (left ++ .block (.conditional test) openTag closeTag body :: right)) =
          Node.expandAll ⟨params, .all, true⟩ (Node.plug path (left ++ right)) := by
  intro template items
  refine ⟨log_eq params template, map_level_target_log params template, pairwise_offset_issues source,
    Node.map_head_byEndAll_perm [] template.nodes, ?_⟩
  intro path left test openTag closeTag body right hfails
  exact Node.expandAll_plug_dropped hfails true path left body right openTag closeTag

-- A loop in a loop, told before it and once; a loop in a conditional whose test fails, not told.
theorem log_parse_nested :
    let kept := "<if test=\x22a != null\x22><foreach item=\x22i\x22>#\x7bi\x7d</foreach></if>".toList
    let dropped := "<if test=\x22b != null\x22><foreach item=\x22j\x22>#\x7bj\x7d</foreach></if>".toList
    let source := "<foreach item=\x22o\x22>".toList ++ (kept ++ (dropped ++ "</foreach></set>".toList))
    let params : Params := [("a".toList, .int 1), ("i".toList, .int 7), ("o".toList, .text "1,2".toList)]
    let inLoop : Node.Frame := ⟨[], .loop (Loop.Header.read "item=\x22o\x22".toList), [], [], []⟩
    (parse source).log params =
        [.malformed ⟨.unopened, "</set>".toList, 144⟩, .unrolling "i".toList 1,
          .unrolling "o".toList 2, .rendered 150 3 5 1 "((7),(7))</set>".toList] ∧
      Condition.holds params "b != null".toList = false ∧
      ∀ body, Node.expandAll ⟨params, .all, true⟩
          (Node.plug [inLoop] [.text "x".toList, .block (.conditional "b != null".toList) [] [] body]) =
        Node.expandAll ⟨params, .all, true⟩ (Node.plug [inLoop] [.text "x".toList]) := by
  intro kept dropped source params inLoop
  have hfails : Condition.holds params "b != null".toList = false := by decide +kernel
  obtain ⟨hlog, -, -, -, hdropped⟩ := log_parse source params
  refine ⟨hlog.trans (by decide +kernel), hfails, fun body => ?_⟩
  exact hdropped [inLoop] [.text "x".toList] _ [] [] body [] hfails

end Template

end SqlPreview
