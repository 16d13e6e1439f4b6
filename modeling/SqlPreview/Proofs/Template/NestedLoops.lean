import SqlPreview.Proofs.Parameter.Written
import SqlPreview.Proofs.Template.RoundTrip

namespace SqlPreview

-- A value whose text is its own and not put together from members.
def Value.isScalar : Value → Bool
  | list _ | record _ => false
  | _ => true

namespace Loop

-- The characters that have a meaning around elements: those of lists, tags, placeholders and shields.
def reserved : List Char :=
  [',', '<', '#', '$', '{', Placeholder.shieldChar]

-- A scalar with a text that is not blank and holds no blank and no reserved character.
def isPlain (element : Value) : Bool :=
  element.isScalar && !Text.allBlank element.toText &&
    element.toText.all fun c => !Text.isBlank c && !reserved.contains c

theorem isPlain_iff {element : Value} :
    isPlain element ↔ element.isScalar ∧ Text.allBlank element.toText = false ∧
      ∀ c ∈ element.toText, Text.isBlank c = false ∧ c ∉ reserved := by
  simp [isPlain, and_assoc]

theorem boundForm_of_isPlain {element : Value} (h : isPlain element) :
    boundForm element = .text element.toText := by
  obtain ⟨hscalar, -, hchars⟩ := isPlain_iff.mp h
  have htrim := Text.trim_eq_self fun c hc => (hchars c hc).1
  cases element with
  | list items => cases hscalar
  | record fields => cases hscalar
  | _ => rw [boundForm, htrim]; simp

end Loop

-- A loop anywhere inside another one, which may itself be anywhere in a tree. The body of the inner
-- loop is text without blanks, tags and sigils, and placeholders of the two items.
structure NestedLoops where
  outside : List Node.Frame
  left : List Node
  outer : Loop.Header
  outerTag : Text
  between : List Node.Frame
  before : List Node
  inner : Loop.Header
  innerTag : Text
  body : List (Piece Placeholder)
  innerEnd : Text
  after : List Node
  outerEnd : Text
  right : List Node
  outerItem : Text
  innerItem : Text
  outer_item : outer.item = some outerItem
  inner_item : inner.item = some innerItem
  isName_outer : Name.isName outerItem
  isName_inner : Name.isName innerItem
  outer_ne_inner : outerItem ≠ innerItem
  body_chars : ∀ c, .char c ∈ body → Text.isBlank c = false ∧ c ∉ ['<', '#', '$']
  body_marks : ∀ p, .mark p ∈ body → p.name = outerItem ∨ p.name = innerItem

namespace NestedLoops

variable (loops : NestedLoops)

-- The tree of a template with the two loops.
def nodes : List Node :=
  let innerLoop : Node := .block (.loop loops.inner) loops.innerTag loops.innerEnd
    (Node.pushText (Placeholder.written loops.body) [])
  let outerLoop : Node := .block (.loop loops.outer) loops.outerTag loops.outerEnd
    (Node.plug loops.between (loops.before ++ innerLoop :: loops.after))
  Node.plug loops.outside (loops.left ++ outerLoop :: loops.right)

-- The inner body with texts for the two items.
def fragment (outerText innerText : Text) : Text :=
  loops.body.flatMap <| Piece.write fun p =>
    p.form.write (if p.name = loops.innerItem then innerText else outerText)

-- The inner body when only the inner element has been bound.
def bindPart (inner : Value) : Piece Placeholder → List (Piece Placeholder)
  | .char c => [.char c]
  | .mark p =>
    if p.name = loops.innerItem then (p.form.write inner.toText).map .char else [.mark p]

def partBound (inner : Value) : List (Piece Placeholder) :=
  loops.body.flatMap (loops.bindPart inner)

-- The inner fragment with both elements bound.
def boundFragment (element inner : Value) : Text :=
  loops.fragment element.toText inner.toText

-- The inner fragment with the whole outer list in place of the outer element.
def filledFragment (elements : List Value) (inner : Value) : Text :=
  loops.fragment (Value.list elements).toText inner.toText

-- The unrolled inner loop, given its fragments.
def innerText (inners : List Value) (fragment : Value → Text) : Text :=
  loops.inner.opening ++ loops.inner.separator.intercalate (inners.map fragment) ++
    loops.inner.closing

-- The outer body in a full expansion, given the text of the inner loop.
def outerBody (params : Params) (innerText : Text) : Text :=
  let plan : Plan := ⟨params, .all, true⟩
  Node.around plan loops.between
    (Node.expansion plan loops.before ++ (innerText ++ Node.expansion plan loops.after))

def outerFragment (params : Params) (innerText : Text) (element : Value) : Text :=
  Text.trim (Placeholder.bindElement loops.outerItem (Loop.boundForm element) (some params)
    (loops.outerBody params innerText))

-- A full expansion, given the text of the outer loop.
def expanded (params : Params) (outerText : Text) : Text :=
  let plan : Plan := ⟨params, .all, true⟩
  Node.around plan loops.outside
    (Node.expansion plan loops.left ++ (outerText ++ Node.expansion plan loops.right))

-- The statement, given the inner fragments for every outer and inner element.
def rendered (params : Params) (outers inners : List Value) (fragment : Value → Value → Text) : Text :=
  let outerFragments := outers.map fun element =>
    loops.outerFragment params (loops.innerText inners (fragment element)) element
  let outerText := loops.outer.opening ++ loops.outer.separator.intercalate outerFragments ++
    loops.outer.closing
  Statement.tidy (Placeholder.unshield (Placeholder.fillAll params (loops.expanded params outerText)))

-- Both items are given lists of plain elements.
structure RunsOver (params : Params) (outers inners : List Value) : Prop where
  get_outer : params.get? loops.outerItem = some (.list outers)
  get_inner : params.get? loops.innerItem = some (.list inners)
  plain : ∀ element ∈ outers ++ inners, Loop.isPlain element

variable {loops}

theorem findable_body : ∀ piece ∈ loops.body, Placeholder.Findable piece := by
  intro piece hp
  cases piece with
  | char c =>
    have hc := (loops.body_chars c hp).2
    simp only [List.mem_cons, List.not_mem_nil, or_false, not_or] at hc
    simp [Placeholder.Findable, Form.ofSigil?, hc]
  | mark p =>
    have hname : Name.isName p.name := by
      rcases loops.body_marks p hp with hn | hn
      · rw [hn]
        exact loops.isName_outer
      · rw [hn]
        exact loops.isName_inner
    exact hname

-- A character of a fragment stands in the body, or in one of the two texts, or is a quote.
theorem mem_of_mem_fragment {outerText innerText : Text} {c : Char}
    (h : c ∈ loops.fragment outerText innerText) :
    .char c ∈ loops.body ∨ c ∈ outerText ∨ c ∈ innerText ∨ c = '\x27' := by
  by_cases hq : c = '\x27'
  · exact .inr (.inr (.inr hq))
  obtain ⟨piece, hp, hc⟩ := List.mem_flatMap.mp h
  cases piece with
  | char d =>
    rw [Piece.write, List.mem_singleton] at hc
    exact .inl (hc ▸ hp)
  | mark p =>
    have htext := Form.mem_of_mem_write hc hq
    split at htext
    · exact .inr (.inr (.inl htext))
    · exact .inr (.inl htext)

-- The expansion of the tree, down to the unrolling of the inner loop.
theorem expansion_nodes (params : Params) :
    Node.expansion ⟨params, .all, true⟩ loops.nodes =
      loops.expanded params (Loop.unroll loops.outer loops.outerItem
        (loops.outerBody params (Loop.unroll loops.inner loops.innerItem
          (Placeholder.written loops.body) (Loop.elements (params.get? loops.innerItem)) (some params)))
        (Loop.elements (params.get? loops.outerItem)) (some params)) := by
  have hbody : Node.expansion ⟨params, .all, true⟩
      (Node.pushText (Placeholder.written loops.body) []) = Placeholder.written loops.body := by
    simp only [Node.pushText]
    split <;> simp [*]
  rw [nodes, Node.expansion_plug, Node.expansion_append, Node.expansion_loop rfl loops.outer_item,
    Node.expansion_plug, Node.expansion_append, Node.expansion_loop rfl loops.inner_item, hbody]
  rfl

section Runs

variable {params : Params} {outers inners : List Value}

theorem rendered_congr {fragment fragment' : Value → Value → Text}
    (h : ∀ element ∈ outers, ∀ inner ∈ inners, fragment element inner = fragment' element inner) :
    loops.rendered params outers inners fragment = loops.rendered params outers inners fragment' := by
  have houters : (outers.map fun element =>
        loops.outerFragment params (loops.innerText inners (fragment element)) element) =
      outers.map fun element =>
        loops.outerFragment params (loops.innerText inners (fragment' element)) element := by
    refine List.map_congr_left fun element he => ?_
    rw [innerText, innerText, List.map_congr_left (h element he)]
  rw [rendered, rendered, houters]

theorem not_mem_toText {element : Value} {c : Char} (h : Loop.isPlain element)
    (hc : c ∈ Loop.reserved) : c ∉ element.toText :=
  fun hm => ((Loop.isPlain_iff.mp h).2.2 c hm).2 hc

theorem mem_list_toText {c : Char} (h : c ∈ (Value.list outers).toText) :
    c = ',' ∨ ∃ element ∈ outers, c ∈ element.toText := by
  rw [Value.toText, Value.itemTexts_eq_map] at h
  rcases Text.mem_of_mem_intercalate h with h | ⟨t, ht, hc⟩
  · exact .inl (List.mem_singleton.mp h)
  · obtain ⟨element, he, rfl⟩ := List.mem_map.mp ht
    exact .inr ⟨element, he, hc⟩

-- Neither blanks nor sigils come into the inner body with a plain element.
theorem quiet_of_mem_toText {element : Value} (h : Loop.isPlain element) {c : Char}
    (hc : c ∈ element.toText) : Text.isBlank c = false ∧ Form.ofSigil? c = none := by
  obtain ⟨hblank, hreserved⟩ := (Loop.isPlain_iff.mp h).2.2 c hc
  simp only [Loop.reserved, List.mem_cons, not_or] at hreserved
  exact ⟨hblank, by simp [Form.ofSigil?, hreserved]⟩

theorem quiet_of_mem_write {element : Value} (h : Loop.isPlain element) {form : Form} {c : Char}
    (hc : c ∈ form.write element.toText) : Text.isBlank c = false ∧ Form.ofSigil? c = none := by
  by_cases hq : c = '\x27'
  · subst hq
    decide
  · exact quiet_of_mem_toText h (Form.mem_of_mem_write hc hq)

theorem mem_partBound {inner : Value} {piece : Piece Placeholder} (h : piece ∈ loops.partBound inner) :
    piece ∈ loops.body ∨ ∃ form : Form, ∃ c ∈ form.write inner.toText, piece = .char c := by
  obtain ⟨source, hs, hm⟩ := List.mem_flatMap.mp h
  cases source with
  | char c => exact .inl (List.mem_singleton.mp hm ▸ hs)
  | mark p =>
    rw [bindPart] at hm
    split at hm
    · obtain ⟨c, hc, rfl⟩ := List.mem_map.mp hm
      exact .inr ⟨p.form, c, hc, rfl⟩
    · exact .inl (List.mem_singleton.mp hm ▸ hs)

theorem findable_partBound {inner : Value} (h : Loop.isPlain inner) :
    ∀ piece ∈ loops.partBound inner, Placeholder.Findable piece := by
  intro piece hp
  rcases mem_partBound hp with hb | ⟨form, c, hc, rfl⟩
  · exact findable_body piece hb
  · exact (quiet_of_mem_write h hc).2

theorem blank_partBound {inner : Value} (h : Loop.isPlain inner) {c : Char}
    (hc : c ∈ Placeholder.written (loops.partBound inner)) : Text.isBlank c = false := by
  obtain ⟨piece, hp, hm⟩ := List.mem_flatMap.mp hc
  rcases mem_partBound hp with hb | ⟨form, d, hd, rfl⟩
  · cases piece with
    | char d =>
      rw [Piece.write, List.mem_singleton] at hm
      subst hm
      exact (loops.body_chars c hb).1
    | mark p => exact Placeholder.isBlank_of_mem_toText (findable_body _ hb) hm
  · rw [Piece.write, List.mem_singleton] at hm
    subst hm
    exact (quiet_of_mem_write h hd).1

variable (hr : loops.RunsOver params outers inners)
include hr

theorem RunsOver.plain_outer {element : Value} (he : element ∈ outers) : Loop.isPlain element :=
  hr.plain element (List.mem_append_left _ he)

theorem RunsOver.plain_inner {inner : Value} (hi : inner ∈ inners) : Loop.isPlain inner :=
  hr.plain inner (List.mem_append_right _ hi)

-- The text of the outer list is not blank, and nothing in it begins a placeholder.
theorem RunsOver.isBlank_list {element : Value} (he : element ∈ outers) :
    (Value.list outers).isBlank = false := by
  obtain ⟨-, hfilled, -⟩ := Loop.isPlain_iff.mp (hr.plain_outer he)
  rw [Value.isBlank, ← Bool.not_eq_true, Text.allBlank_iff]
  rw [← Bool.not_eq_true, Text.allBlank_iff] at hfilled
  exact fun hblank => hfilled fun c hc => hblank c (Value.mem_toText_of_mem_item he hc)

theorem RunsOver.brace_not_mem_list : '{' ∉ (Value.list outers).toText := by
  intro h
  rcases mem_list_toText h with h | ⟨element, he, hc⟩
  · exact absurd h (by decide)
  · exact not_mem_toText (hr.plain_outer he) (by decide) hc

-- A filled fragment holds neither a blank nor a sigil.
theorem RunsOver.quiet_filledFragment {inner : Value} (hi : inner ∈ inners) {c : Char}
    (hc : c ∈ loops.filledFragment outers inner) :
    Text.isBlank c = false ∧ Form.ofSigil? c = none := by
  rcases mem_of_mem_fragment hc with h | h | h | rfl
  · exact ⟨(loops.body_chars c h).1, findable_body _ h⟩
  · rcases mem_list_toText h with rfl | ⟨element, he, hm⟩
    · decide
    · exact quiet_of_mem_toText (hr.plain_outer he) hm
  · exact quiet_of_mem_toText (hr.plain_inner hi) h
  · decide

-- What the inner loop writes for a placeholder of its body.
theorem RunsOver.bind_inner {element inner : Value} (he : element ∈ outers) (hi : inner ∈ inners)
    {p : Placeholder} (hp : .mark p ∈ loops.body) :
    Placeholder.bind loops.innerItem (Loop.boundForm inner) (some params) p =
      p.form.write (if p.name = loops.innerItem then inner.toText else (Value.list outers).toText) := by
  have hshield : ∀ t, '{' ∉ t → Placeholder.shield (p.form.write t) = p.form.write t := fun t ht =>
    Placeholder.shield_eq_self fun h => ht (Form.mem_of_mem_write h (by decide))
  rw [Loop.boundForm_of_isPlain (hr.plain_inner hi)]
  by_cases hn : p.name = loops.innerItem
  · have hbound : Placeholder.bound? loops.innerItem (.text inner.toText) p.name =
        some (.text inner.toText) := if_pos hn
    simp only [Placeholder.bind, hbound, if_pos hn, Value.toText]
    exact hshield _ (not_mem_toText (hr.plain_inner hi) (by decide))
  · have hbound : Placeholder.bound? loops.innerItem (.text inner.toText) p.name = none := by
      simp [Placeholder.bound?, hn, Value.field?]
    have hfill : Placeholder.fill params p = p.form.write (Value.list outers).toText := by
      rw [Placeholder.fill, (loops.body_marks p hp).resolve_right hn, hr.get_outer]
      simp only [hr.isBlank_list he]
      rfl
    simp only [Placeholder.bind, hbound, if_neg hn, hfill]
    exact hshield _ hr.brace_not_mem_list

-- While there is an outer element, the inner loop makes the filled fragments.
theorem RunsOver.fragments_inner {element : Value} (he : element ∈ outers) :
    Loop.fragments loops.innerItem (Placeholder.written loops.body) inners (some params) =
      inners.map (loops.filledFragment outers) := by
  refine List.map_congr_left fun inner hi => ?_
  have hbind : Placeholder.bindElement loops.innerItem (Loop.boundForm inner) (some params)
      (Placeholder.written loops.body) = loops.filledFragment outers inner :=
    (Placeholder.replace_written findable_body _).trans
      (Piece.flatMap_write_congr fun p hp => hr.bind_inner he hi hp)
  rw [hbind]
  exact Text.trim_eq_self fun c hc => (hr.quiet_filledFragment hi hc).1

-- The outer element finds nothing to bind in such a fragment.
theorem RunsOver.bindElement_filledFragment {inner : Value} (hi : inner ∈ inners) (element : Value) :
    Placeholder.bindElement loops.outerItem element (some params) (loops.filledFragment outers inner) =
      loops.filledFragment outers inner :=
  Placeholder.replace_eq_self_of_no_sigil (fun _ hc => (hr.quiet_filledFragment hi hc).2) _

-- A render makes every inner fragment without the outer element.
theorem RunsOver.render_eq_filled {source : Text}
    (hs : (Template.parse source).nodes = loops.nodes) :
    render source params =
      loops.rendered params outers inners fun _ => loops.filledFragment outers := by
  have hfragments : Loop.fragments loops.outerItem
        (loops.outerBody params (Loop.unroll loops.inner loops.innerItem
          (Placeholder.written loops.body) inners (some params))) outers (some params) =
      outers.map
        (loops.outerFragment params (loops.innerText inners (loops.filledFragment outers))) := by
    refine List.map_congr_left fun element he => ?_
    rw [Loop.unroll, hr.fragments_inner he, outerFragment, innerText]
  rw [render_eq_expansion, hs, expansion_nodes, hr.get_outer, hr.get_inner, rendered]
  simp only [Loop.elements]
  rw [Loop.unroll, hfragments]

-- Expanding loops alone binds the inner element first and leaves the outer placeholders for the outer
-- one, so that both are bound.
theorem RunsOver.bindElement_bindElement {element inner : Value} (he : element ∈ outers)
    (hi : inner ∈ inners) :
    Placeholder.bindElement loops.outerItem (Loop.boundForm element) none
        (Text.trim (Placeholder.bindElement loops.innerItem (Loop.boundForm inner) none
          (Placeholder.written loops.body))) =
      loops.boundFragment element inner := by
  have hinner := hr.plain_inner hi
  have hpart : Placeholder.bindElement loops.innerItem (Loop.boundForm inner) none
      (Placeholder.written loops.body) = Placeholder.written (loops.partBound inner) := by
    refine (Placeholder.replace_written findable_body _).trans ?_
    rw [Placeholder.written, partBound, List.flatMap_assoc]
    refine List.flatMap_congr fun piece hp => ?_
    cases piece with
    | char c => rfl
    | mark p =>
      rw [Loop.boundForm_of_isPlain hinner]
      by_cases hn : p.name = loops.innerItem
      · simp [bindPart, hn, Piece.write, Placeholder.bind, Placeholder.bound?, Value.toText,
          List.flatMap_map]
      · simp [bindPart, hn, Piece.write, Placeholder.bind, Placeholder.bound?, Value.field?]
  have htrim : Text.trim (Placeholder.written (loops.partBound inner)) =
      Placeholder.written (loops.partBound inner) :=
    Text.trim_eq_self fun c hc => blank_partBound hinner hc
  rw [hpart, htrim]
  refine (Placeholder.replace_written (findable_partBound hinner) _).trans ?_
  rw [partBound, List.flatMap_assoc]
  refine List.flatMap_congr fun piece hp => ?_
  cases piece with
  | char c => rfl
  | mark p =>
    rw [Loop.boundForm_of_isPlain (hr.plain_outer he)]
    by_cases hn : p.name = loops.innerItem
    · simp [bindPart, hn, Piece.write, List.flatMap_map]
    · have houter := (loops.body_marks p hp).resolve_right hn
      simp [bindPart, houter, loops.outer_ne_inner, Piece.write, Placeholder.bind,
        Placeholder.bound?, Value.toText]

-- The whole outer list stands in for an outer element unseen only if there is no other element, no
-- inner element, or no placeholder for it.
theorem RunsOver.filled_eq_bound_iff :
    (∀ element ∈ outers, ∀ inner ∈ inners,
        loops.filledFragment outers inner = loops.boundFragment element inner) ↔
      outers.length ≤ 1 ∨ inners = [] ∨ ∀ p, .mark p ∈ loops.body → p.name ≠ loops.outerItem := by
  constructor
  · intro h
    by_cases hlength : outers.length ≤ 1
    · exact .inl hlength
    by_cases hnil : inners = []
    · exact .inr (.inl hnil)
    refine .inr (.inr fun p hp hname => ?_)
    obtain ⟨inner, hi⟩ := List.exists_mem_of_ne_nil inners hnil
    obtain ⟨first, second, rest, rfl⟩ : ∃ first second rest, outers = first :: second :: rest := by
      rcases outers with _ | ⟨first, _ | ⟨second, rest⟩⟩
      · simp at hlength
      · simp at hlength
      · exact ⟨first, second, rest, rfl⟩
    -- the list has a comma between its elements, and no element holds one
    have hcomma : ',' ∈ (Value.list (first :: second :: rest)).toText := by
      rw [Value.toText, Value.itemTexts, Value.itemTexts, List.intercalate_cons_cons]
      simp
    have hfirst : first.toText.count ',' = 0 :=
      List.count_eq_zero.mpr (not_mem_toText (hr.plain_outer (by simp)) (by decide))
    have hne : p.name ≠ loops.innerItem := hname ▸ loops.outer_ne_inner
    have hlt : (loops.boundFragment first inner).count ',' <
        (loops.filledFragment (first :: second :: rest) inner).count ',' := by
      refine Piece.count_flatMap_write_lt (fun q _ => ?_) hp ?_
      · rw [Form.count_write (by decide), Form.count_write (by decide)]
        split
        · exact Nat.le_refl _
        · rw [hfirst]
          exact Nat.zero_le _
      · rw [Form.count_write (by decide), Form.count_write (by decide), if_neg hne, if_neg hne, hfirst]
        exact List.count_pos_iff.mpr hcomma
    exact absurd (congrArg (List.count ',') (h first (by simp) inner hi)) (Nat.ne_of_gt hlt)
  · rintro (hlength | hnil | hnone) element he inner hi
    · obtain rfl : outers = [element] := by
        rcases outers with _ | ⟨first, _ | ⟨second, rest⟩⟩
        · simp at he
        · rw [List.mem_singleton.mp he]
        · simp at hlength
      simp [filledFragment, boundFragment, Value.toText, Value.itemTexts]
    · simp [hnil] at hi
    · refine Piece.flatMap_write_congr fun p hp => ?_
      have hinner := (loops.body_marks p hp).resolve_left (hnone p hp)
      rw [if_pos hinner, if_pos hinner]

end Runs

-- A full render writes the whole outer list wherever the inner body asks for the outer element, and
-- binding the outer element afterwards changes nothing of it. Where loops alone are expanded, both
-- elements are bound. The two agree exactly if there is at most one outer element, no inner element, or
-- no placeholder for the outer element in the inner body.
theorem render_nested (loops : NestedLoops) {source : Text} {params : Params}
    {outers inners : List Value} (hs : (Template.parse source).nodes = loops.nodes)
    (hr : loops.RunsOver params outers inners) :
    (render source params =
        loops.rendered params outers inners fun _ => loops.filledFragment outers) ∧
      (∀ element ∈ outers, ∀ inner ∈ inners,
        Placeholder.bindElement loops.outerItem (Loop.boundForm element) (some params)
            (loops.filledFragment outers inner) = loops.filledFragment outers inner ∧
          Placeholder.bindElement loops.outerItem (Loop.boundForm element) none
            (Text.trim (Placeholder.bindElement loops.innerItem (Loop.boundForm inner) none
              (Placeholder.written loops.body))) = loops.boundFragment element inner) ∧
      ((∀ element ∈ outers, ∀ inner ∈ inners,
          loops.filledFragment outers inner = loops.boundFragment element inner) ↔
        outers.length ≤ 1 ∨ inners = [] ∨ ∀ p, .mark p ∈ loops.body → p.name ≠ loops.outerItem) ∧
      ((outers.length ≤ 1 ∨ inners = [] ∨ ∀ p, .mark p ∈ loops.body → p.name ≠ loops.outerItem) →
        render source params = loops.rendered params outers inners loops.boundFragment) :=
  ⟨hr.render_eq_filled hs,
    fun _ he _ hi => ⟨hr.bindElement_filledFragment hi _, hr.bindElement_bindElement he hi⟩,
    hr.filled_eq_bound_iff,
    fun h => (hr.render_eq_filled hs).trans (rendered_congr (hr.filled_eq_bound_iff.mpr h))⟩

-- A loop over `i` in a loop over `o`, with a placeholder for each.
def pairs : NestedLoops where
  outside := []
  left := []
  outer := ⟨some ['o'], ['('], [','], [')']⟩
  outerTag := "<foreach item=\x22o\x22>".toList
  between := []
  before := []
  inner := ⟨some ['i'], ['('], [','], [')']⟩
  innerTag := "<foreach item=\x22i\x22>".toList
  body := [.mark ⟨.quoted, ['o']⟩, .char '-', .mark ⟨.quoted, ['i']⟩]
  innerEnd := "</foreach>".toList
  after := []
  outerEnd := "</foreach>".toList
  right := []
  outerItem := ['o']
  innerItem := ['i']
  outer_item := rfl
  inner_item := rfl
  isName_outer := by decide
  isName_inner := by decide
  outer_ne_inner := by decide
  body_chars := by simp; decide
  body_marks := by simp

def pairsParams : Params :=
  [("i".toList, .list [.text "3".toList, .text "4".toList]),
    ("o".toList, .list [.text "1".toList, .text "2".toList])]

theorem render_nested_pairs :
    let source := Node.printAll pairs.nodes
    let inners : List Value := [.text "3".toList, .text "4".toList]
    let outers : List Value := [.text "1".toList, .text "2".toList]
    (Template.parse source).nodes = pairs.nodes ∧ pairs.RunsOver pairsParams outers inners ∧
      render source pairsParams =
        pairs.rendered pairsParams outers inners fun _ => pairs.filledFragment outers := by
  intro source inners outers
  have hlawful : Node.LawfulAll pairs.nodes := by
    have hopened : ∀ header attributes, header = Loop.Header.read attributes → '>' ∉ attributes →
        (Block.Head.loop header).OpenedBy ("<foreach".toList ++ ([' '] ++ (attributes ++ ['>']))) :=
      fun header attributes h hgt => ⟨_, _, _, rfl, by decide, rfl, hgt, h, rfl⟩
    refine Node.lawfulAll_block.mpr ⟨⟨hopened _ "item=\x22o\x22".toList ?_ (by decide), rfl⟩,
      Node.lawfulAll_block.mpr ⟨⟨hopened _ "item=\x22i\x22".toList ?_ (by decide), rfl⟩,
        Node.lawfulAll_text.mpr ⟨rfl, Node.lawfulAll_nil⟩, Node.lawfulAll_nil⟩, Node.lawfulAll_nil⟩
    all_goals decide +kernel
  have hs : (Template.parse source).nodes = pairs.nodes := by
    rw [Template.parse_printAll hlawful]
    rfl
  have hr : pairs.RunsOver pairsParams outers inners := ⟨rfl, rfl, by decide⟩
  exact ⟨hs, hr, (render_nested pairs hs hr).1⟩

-- Both outer fragments hold the whole outer list, where loops alone put each element in its own.
theorem render_nested_unbound :
    let innerLoop := "<foreach item=\x22i\x22>#\x7bo\x7d-#\x7bi\x7d</foreach>".toList
    let source := "<foreach item=\x22o\x22>".toList ++ (innerLoop ++ "</foreach>".toList)
    render source pairsParams =
        "((\x271,2\x27-3,\x271,2\x27-4),(\x271,2\x27-3,\x271,2\x27-4))".toList ∧
      expandOnly .loop source pairsParams = "((1-3,1-4),(2-3,2-4))".toList := by
  decide +kernel

end NestedLoops

end SqlPreview
