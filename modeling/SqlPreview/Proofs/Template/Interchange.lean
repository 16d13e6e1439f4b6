import SqlPreview.Proofs.Parameter.Element
import SqlPreview.Proofs.Template.Tree

namespace SqlPreview

namespace Value

-- What placeholders are filled with: the text of a value, if there is one and it is not blank.
def shown? : Option Value → Option Text
  | some value => if value.isBlank then none else some value.toText
  | none => none

-- Two values, each of which may be missing, that a render looks at alike.
structure Alike (one other : Option Value) : Prop where
  shown : shown? one = shown? other
  differs : ∀ literal : Literal, one.any literal.differs = other.any literal.differs
  elements : (Loop.elements one).map Loop.boundForm = (Loop.elements other).map Loop.boundForm

theorem Alike.refl (given : Option Value) : Alike given given :=
  ⟨rfl, fun _ => rfl, rfl⟩

end Value

-- Tables that give alike values to every name.
def Params.Alike (params params' : Params) : Prop :=
  ∀ name, Value.Alike (params.get? name) (params'.get? name)

-- Alike values may be put in place of each other.
theorem Params.alike_insert {one other : Value} (h : Value.Alike (some one) (some other)) (name : Text)
    (params : Params) : Params.Alike (Table.insert name one params) (Table.insert name other params) := by
  intro found
  rw [Table.get?_insert, Table.get?_insert]
  split
  · exact h
  · exact Value.Alike.refl _

namespace Placeholder

theorem fill_eq (params : Params) (p : Placeholder) :
    fill params p = (Value.shown? (params.get? p.name)).elim [] p.form.write := by
  rw [fill]
  cases params.get? p.name with
  | none => rfl
  | some value => simp only [Value.shown?]; split <;> rfl

end Placeholder

theorem Comparison.holds_eq (params : Params) (comparison : Comparison) :
    comparison.holds params = (params.get? comparison.name).any comparison.literal.differs := by
  rw [holds]
  cases params.get? comparison.name <;> rfl

theorem Loop.fragments_eq (item body : Text) (elements : List Value) (outer : Option Params) :
    fragments item body elements outer = (elements.map boundForm).map fun element =>
      Text.trim (Placeholder.bindElement item element outer body) := by
  rw [fragments, List.map_map]
  rfl

namespace Node

mutual

-- The tests on whose outcome the expansion of a node can depend: a conditional whose test fails hides
-- those inside of it, and so does a loop without elements.
def tests (params : Params) : Node → List Text
  | text _ => []
  | block (.conditional test) _ _ body =>
    test :: if Condition.holds params test then testsAll params body else []
  | block (.loop header) _ _ body =>
    match header.item with
    | some item =>
      if (Loop.elements (params.get? item)).isEmpty then [] else testsAll params body
    | none => testsAll params body
  | block _ _ _ body => testsAll params body

def testsAll (params : Params) : List Node → List Text
  | [] => []
  | node :: rest => tests params node ++ testsAll params rest

end

end Node

-- Tables under which placeholders are filled with the same texts and loops run over the same elements.
-- Only tests can tell them apart.
structure Params.FillsAlike (params params' : Params) : Prop where
  fill : Placeholder.fill params = Placeholder.fill params'
  elements : ∀ item, (Loop.elements (params.get? item)).map Loop.boundForm =
    (Loop.elements (params'.get? item)).map Loop.boundForm

namespace Params.FillsAlike

variable {params params' : Params} (h : Params.FillsAlike params params')
include h

-- Loop bodies are filled alike, and with the same elements.
theorem fragments_eq_fragments (item body : Text) :
    Loop.fragments item body (Loop.elements (params.get? item)) (some params) =
      Loop.fragments item body (Loop.elements (params'.get? item)) (some params') := by
  have hbind : ∀ element, Placeholder.bind item element (some params) =
      Placeholder.bind item element (some params') := by
    intro element
    funext p
    cases hb : Placeholder.bound? item element p.name <;> simp only [Placeholder.bind, hb, h.fill]
  rw [Loop.fragments_eq, Loop.fragments_eq, h.elements item]
  simp only [Placeholder.bindElement, hbind]

-- Without elements the body of a loop does not matter.
theorem unroll_eq_unroll (header : Loop.Header) (item : Text) {body body' : Text}
    (hbody : (Loop.elements (params.get? item)).isEmpty = false → body = body') :
    Loop.unroll header item body (Loop.elements (params.get? item)) (some params) =
      Loop.unroll header item body' (Loop.elements (params'.get? item)) (some params') := by
  rw [Loop.unroll, Loop.unroll, ← h.fragments_eq_fragments]
  cases he : Loop.elements (params.get? item) with
  | nil => rfl
  | cons element elements => rw [hbody (by rw [he]; rfl)]

-- If the tests that matter have the same outcome, so has the whole expansion.
theorem expansion_eq_expansion {nodes : List Node} (htests : ∀ test ∈ Node.testsAll params nodes,
      Condition.holds params test = Condition.holds params' test) :
    Node.expansion ⟨params, .all, true⟩ nodes = Node.expansion ⟨params', .all, true⟩ nodes := by
  induction nodes using Node.row_induction with
  | nil => rw [Node.expansion_nil, Node.expansion_nil]
  | text t rest ih =>
    rw [Node.testsAll, Node.tests, List.nil_append] at htests
    rw [Node.expansion_text, Node.expansion_text, ih htests]
  | block head openTag closeTag body rest ihBody ihRest =>
    rw [Node.testsAll, List.forall_mem_append] at htests
    obtain ⟨hblock, hrest⟩ := htests
    rw [Node.expansion_block, Node.expansion_block, ihRest hrest]
    congr 1
    cases head with
    | conditional test =>
      rw [Node.tests, List.forall_mem_cons] at hblock
      obtain ⟨htest, hbody⟩ := hblock
      change (if Condition.holds params test then Node.expansion ⟨params, .all, true⟩ body else []) =
        if Condition.holds params' test then Node.expansion ⟨params', .all, true⟩ body else []
      rw [← htest]
      by_cases ht : Condition.holds params test
      · rw [if_pos ht] at hbody
        rw [if_pos ht, if_pos ht, ihBody hbody]
      · rw [if_neg ht, if_neg ht]
    | loop header =>
      obtain ⟨item, opening, separator, closing⟩ := header
      cases item with
      | none =>
        change openTag ++ (_ ++ closeTag) = openTag ++ (_ ++ closeTag)
        rw [ihBody hblock]
      | some item =>
        refine h.unroll_eq_unroll _ item fun hfilled => ihBody ?_
        simpa only [Node.tests, hfilled, Bool.false_eq_true, if_false] using hblock
    | setClause => exact congrArg SetClause.ofBody (ihBody hblock)
    | whereClause => exact congrArg WhereClause.ofBody (ihBody hblock)

theorem render_eq_render {source : Text}
    (htests : ∀ test ∈ Node.testsAll params (Template.parse source).nodes,
      Condition.holds params test = Condition.holds params' test) :
    render source params = render source params' := by
  rw [render_eq_expansion, render_eq_expansion, h.expansion_eq_expansion htests,
    Placeholder.fillAll, Placeholder.fillAll, h.fill]

end Params.FillsAlike

namespace Params.Alike

variable {params params' : Params} (h : Params.Alike params params')
include h

theorem fillsAlike : Params.FillsAlike params params' := by
  refine ⟨?_, fun item => (h item).elements⟩
  funext p
  rw [Placeholder.fill_eq, Placeholder.fill_eq, (h p.name).shown]

theorem condition_holds_eq (test : Text) :
    Condition.holds params test = Condition.holds params' test := by
  have hholds : Comparison.holds params = Comparison.holds params' := by
    funext comparison
    rw [Comparison.holds_eq, Comparison.holds_eq, (h comparison.name).differs]
  rw [Condition.holds, Condition.holds, hholds]

theorem render_eq_render (source : Text) : render source params = render source params' :=
  h.fillsAlike.render_eq_render fun test _ => h.condition_holds_eq test

end Params.Alike

namespace Value

-- A list looks like its text if its members can be told from each other there: no record among them,
-- no comma in them, and no blank one at the end.
theorem alike_list_text {items : List Value} (hrecord : ∀ item ∈ items, ∀ fields, item ≠ .record fields)
    (hcomma : ∀ item ∈ items, ',' ∉ item.toText)
    (hlast : ∀ last ∈ items.getLast?, last.isBlank = false) :
    Alike (some (.list items)) (some (.text (toText (.list items)))) := by
  have hblank : isBlank (.list items) = isBlank (.text (toText (.list items))) := by
    rw [isBlank, isBlank]
  have htext : toText (.text (toText (.list items))) = toText (.list items) := by
    rw [toText]
  refine ⟨?_, fun literal => ?_, ?_⟩
  · rw [shown?, shown?, hblank, htext]
  · cases literal <;> simp [Literal.differs, hblank, htext]
  · have hcommas : ∀ t ∈ items.map toText, ',' ∉ t := by
      intro t ht
      obtain ⟨item, hi, rfl⟩ := List.mem_map.mp ht
      exact hcomma item hi
    have hlasts : ∀ t ∈ (items.map toText).getLast?, Text.allBlank t = false := by
      intro t ht
      rw [List.getLast?_map] at ht
      obtain ⟨last, hl, rfl⟩ := Option.map_eq_some_iff.mp ht
      rw [← isBlank_eq_allBlank_toText, hlast last hl]
    have hbound : ∀ item ∈ items, Loop.boundForm item = .text (Text.trim item.toText) := by
      intro item hi
      cases item with
      | record fields => exact absurd rfl (hrecord _ hi fields)
      | _ => rfl
    rw [toText, itemTexts_eq_map]
    simp only [Loop.elements, Loop.textElements_intercalate hcommas hlasts, List.map_map]
    refine List.map_congr_left fun item hi => ?_
    have htrim : Loop.boundForm (.text (Text.trim item.toText)) = .text (Text.trim item.toText) := by
      simp [Loop.boundForm, toText]
    rw [hbound item hi]
    exact htrim.symm

end Value

-- A list may be given as the text of its members between commas.
theorem render_list_eq_text (source : Text) (params : Params) (name : Text) (items : List Value)
    (hrecord : ∀ item ∈ items, ∀ fields, item ≠ .record fields)
    (hcomma : ∀ item ∈ items, ',' ∉ item.toText)
    (hlast : ∀ last ∈ items.getLast?, last.isBlank = false) :
    render source (Table.insert name (.list items) params) =
      render source (Table.insert name (.text (Value.toText (.list items))) params) := by
  have halike := Value.alike_list_text hrecord hcomma hlast
  exact (Params.alike_insert halike name params).render_eq_render source

-- A list with a blank member and one that is trimmed: in a test, in a loop, in a loop inside of that
-- one, and as it is.
theorem render_list_eq_text_mixed :
    let inLoop := "#\x7bn\x7d#\x7bn.k\x7d<foreach item=\x22m\x22>$\x7bn\x7d</foreach>".toList
    let source := "<if test=\x22n != null and n != 0\x22><foreach item=\x22n\x22>".toList ++
      (inLoop ++ "</foreach></if> #\x7bn\x7d".toList)
    let params : Params := [("m".toList, .text "x".toList)]
    let items : List Value := [.int 1, .text " ".toList, .text " b ".toList]
    (∀ item ∈ items, ∀ fields, item ≠ .record fields) ∧ (∀ item ∈ items, ',' ∉ item.toText) ∧
      (∀ last ∈ items.getLast?, last.isBlank = false) ∧
      render source (Table.insert "n".toList (.list items) params) =
        "(1(1, , b),\x27\x27(1, , b),\x27b\x27(1, , b)) \x271, , b \x27".toList ∧
      render source (Table.insert "n".toList (.list items) params) =
        render source (Table.insert "n".toList (.text "1, , b ".toList) params) := by
  intro inLoop source params items
  have hrecord : ∀ item ∈ items, ∀ fields, item ≠ .record fields := by simp [items]
  have hcomma : ∀ item ∈ items, ',' ∉ item.toText := by decide +kernel
  have hlast : ∀ last ∈ items.getLast?, last.isBlank = false := by decide +kernel
  have hrender := render_list_eq_text source params "n".toList items hrecord hcomma hlast
  exact ⟨hrecord, hcomma, hlast, by decide +kernel, hrender⟩

end SqlPreview
