import SqlPreview.Proofs.Parameter.Occurrence
import SqlPreview.Proofs.Template.Origin
import SqlPreview.Proofs.Template.Seams
import SqlPreview.Proofs.Template.Verbatim

namespace SqlPreview

open Text (isCut)

-- The names that the comparisons of a test ask for.
def Condition.names (test : Text) : List Text :=
  ((parts test).filterMap Comparison.read?).map Comparison.name

theorem Condition.holds_congr {params params' : Params} {test : Text}
    (h : ∀ name ∈ names test, params.get? name = params'.get? name) :
    holds params test = holds params' test := by
  rw [holds, holds, Bool.eq_iff_iff, List.all_eq_true, List.all_eq_true]
  refine forall₂_congr fun part hp => ?_
  cases hr : Comparison.read? part with
  | none => exact Iff.rfl
  | some comparison =>
    have hm : comparison.name ∈ names test :=
      List.mem_map_of_mem (List.mem_filterMap.mpr ⟨part, hp, hr⟩)
    simp only [Option.all_some, Comparison.holds, h comparison.name hm]

namespace Placeholder

theorem fill_congr {params params' : Params} {p : Placeholder}
    (h : params.get? p.name = params'.get? p.name) : fill params p = fill params' p := by
  rw [fill, fill, h]

-- A loop body that asks for a value only where both tables agree is filled alike.
theorem bindElement_congr {params params' : Params} {item body : Text} {element : Value}
    (h : ∀ name ∈ names body, params.get? name = params'.get? name) :
    bindElement item element (some params) body = bindElement item element (some params') body := by
  refine Mark.replace_congr fun p hp => ?_
  have hfill := fill_congr (h p.name (mem_names.mpr ⟨p, hp, rfl⟩))
  cases hb : bound? item element p.name <;> simp only [bind, hb, hfill]

theorem fillAll_congr {params params' : Params} {t : Text}
    (h : ∀ name ∈ names t, params.get? name = params'.get? name) :
    fillAll params t = fillAll params' t := by
  exact Mark.replace_congr fun p hp => fill_congr (h p.name (mem_names.mpr ⟨p, hp, rfl⟩))

end Placeholder

namespace Node

mutual

-- The texts in which the expansion of a node looks for placeholders: the bodies of the loops that have
-- any elements.
def searched (params : Params) : Node → List Text
  | text _ => []
  | block (.conditional test) _ _ body =>
    if Condition.holds params test then searchedAll params body else []
  | block (.loop header) _ _ body =>
    match header.item with
    | some item =>
      if (Loop.elements (params.get? item)).isEmpty then []
      else expansion ⟨params, .all, true⟩ body :: searchedAll params body
    | none => searchedAll params body
  | block _ _ _ body => searchedAll params body

def searchedAll (params : Params) : List Node → List Text
  | [] => []
  | node :: rest => searched params node ++ searchedAll params rest

end

-- The names that the heads of the blocks of a tree ask for: items of loops, and names in tests.
def headNames (nodes : List Node) : List Text :=
  (heads nodes).flatMap fun
    | .conditional test => Condition.names test
    | .loop header => header.item.toList
    | _ => []

@[simp]
theorem headNames_text (t : Text) (rest : List Node) : headNames (.text t :: rest) = headNames rest := by
  rw [headNames, heads_text, headNames]

theorem headNames_block (head : Block.Head) (openTag closeTag : Text) (body rest : List Node) :
    headNames (.block head openTag closeTag body :: rest) =
      headNames [.block head openTag closeTag []] ++ (headNames body ++ headNames rest) := by
  simp [headNames]

-- Tables that agree on the names of the heads, and on the names in the texts that are searched under
-- one of them, give the same expansion.
theorem expansion_agree {params params' : Params} {nodes : List Node}
    (hheads : ∀ name ∈ headNames nodes, params.get? name = params'.get? name)
    (hsearched : ∀ t ∈ searchedAll params nodes, ∀ name ∈ Placeholder.names t,
      params.get? name = params'.get? name) :
    expansion ⟨params, .all, true⟩ nodes = expansion ⟨params', .all, true⟩ nodes := by
  induction nodes using row_induction with
  | nil => rw [expansion_nil, expansion_nil]
  | text t rest ih =>
    rw [headNames_text] at hheads
    rw [searchedAll, searched, List.nil_append] at hsearched
    rw [expansion_text, expansion_text, ih hheads hsearched]
  | block head openTag closeTag body rest ihBody ihRest =>
    rw [headNames_block, List.forall_mem_append, List.forall_mem_append] at hheads
    obtain ⟨hhead, hbody, hrest⟩ := hheads
    rw [searchedAll, List.forall_mem_append] at hsearched
    rw [expansion_block, expansion_block, ihRest hrest hsearched.2]
    congr 1
    cases head with
    | conditional test =>
      have hholds : Condition.holds params test = Condition.holds params' test :=
        Condition.holds_congr fun name hm => hhead name (by simpa [headNames] using hm)
      change (if Condition.holds params test then expansion ⟨params, .all, true⟩ body else []) =
        if Condition.holds params' test then expansion ⟨params', .all, true⟩ body else []
      rw [← hholds]
      by_cases ht : Condition.holds params test
      · have hinner := hsearched.1
        rw [searched, if_pos ht] at hinner
        rw [if_pos ht, if_pos ht, ihBody hbody hinner]
      · rw [if_neg ht, if_neg ht]
    | loop header =>
      obtain ⟨item, opening, separator, closing⟩ := header
      cases item with
      | none =>
        change openTag ++ (_ ++ closeTag) = openTag ++ (_ ++ closeTag)
        rw [ihBody hbody hsearched.1]
      | some item =>
        have hinner := hsearched.1
        have hitem : params.get? item = params'.get? item := hhead item (by simp [headNames])
        change Loop.unroll _ item _ (Loop.elements (params.get? item)) (some params) =
          Loop.unroll _ item _ (Loop.elements (params'.get? item)) (some params')
        rw [← hitem]
        by_cases hempty : (Loop.elements (params.get? item)).isEmpty
        · rw [List.isEmpty_iff.mp hempty]
          rfl
        · simp only [searched, hempty, Bool.false_eq_true, if_false, List.forall_mem_cons] at hinner
          rw [← ihBody hbody hinner.2, Loop.unroll, Loop.unroll, Loop.fragments, Loop.fragments]
          simp only [Placeholder.bindElement_congr hinner.1]
    | setClause => exact congrArg SetClause.ofBody (ihBody hbody hsearched.1)
    | whereClause => exact congrArg WhereClause.ofBody (ihBody hbody hsearched.1)

end Node

namespace Template

-- The texts in which a render looks for placeholders: the bodies of the loops, and all in the end.
def searched (params : Params) (template : Template) : List Text :=
  Node.expansion ⟨params, .all, true⟩ template.nodes :: Node.searchedAll params template.nodes

end Template

-- Tables that agree on all names that a render asks for give the same statement.
theorem render_agree {params params' : Params} {source : Text}
    (hheads : ∀ name ∈ Node.headNames (Template.parse source).nodes,
      params.get? name = params'.get? name)
    (hsearched : ∀ t ∈ (Template.parse source).searched params, ∀ name ∈ Placeholder.names t,
      params.get? name = params'.get? name) :
    render source params = render source params' := by
  rw [Template.searched, List.forall_mem_cons] at hsearched
  rw [render_eq_expansion, render_eq_expansion, ← Node.expansion_agree hheads hsearched.2,
    Placeholder.fillAll_congr hsearched.1]

namespace Node

-- Where all nodes are settled, so are all texts that are searched.
theorem settled_searchedAll {allowed : Placeholder → Prop} {relevant : Text → Prop} {params : Params}
    {nodes : List Node} (hallowed : ∀ p, allowed p → relevant p.name)
    (hvalues : Params.FollowedUp relevant params)
    (hitems : ∀ header, .loop header ∈ heads nodes → ∀ item ∈ header.item, relevant item)
    (hnodes : ∀ node ∈ everyAll nodes, node.SettledIn allowed) :
    ∀ t ∈ searchedAll params nodes, Placeholder.Settled isCut allowed t := by
  induction nodes using row_induction with
  | nil => simp [searchedAll]
  | text t rest ih =>
    rw [everyAll_text, List.forall_mem_cons] at hnodes
    rw [heads_text] at hitems
    rw [searchedAll, searched, List.nil_append]
    exact ih hitems hnodes.2
  | block head openTag closeTag body rest ihBody ihRest =>
    rw [everyAll_block, List.forall_mem_cons, List.forall_mem_append] at hnodes
    obtain ⟨-, hbody, hrest⟩ := hnodes
    have hitemsBody : ∀ header, .loop header ∈ heads body → ∀ item ∈ header.item, relevant item :=
      fun header hm => hitems header (by simp [hm])
    have hinner := ihBody hitemsBody hbody
    rw [searchedAll, List.forall_mem_append]
    refine ⟨?_, ihRest (fun header hm => hitems header (by simp [hm])) hrest⟩
    cases head with
    | conditional test =>
      rw [searched]
      split
      · exact hinner
      · exact List.forall_mem_nil _
    | loop header =>
      rw [searched]
      split
      · split
        · exact List.forall_mem_nil _
        · refine List.forall_mem_cons.mpr ⟨?_, hinner⟩
          exact settled_expansion hallowed hvalues hitemsBody hbody
      · exact hinner
    | setClause => exact hinner
    | whereClause => exact hinner

-- What is printed of a node stands in the print of its tree.
theorem infix_of_mem_everyAll {nodes : List Node} {node : Node} (h : node ∈ everyAll nodes) :
    print node <:+: printAll nodes := by
  induction nodes using row_induction with
  | nil => simp at h
  | text t rest ih =>
    rw [everyAll_text, List.mem_cons] at h
    rw [printAll_text]
    rcases h with rfl | h
    · exact (List.prefix_append t _).isInfix
    · exact (ih h).trans (List.suffix_append _ _).isInfix
  | block head openTag closeTag body rest ihBody ihRest =>
    rw [everyAll_block, List.mem_cons, List.mem_append] at h
    rw [printAll]
    rcases h with rfl | h | h
    · exact (List.prefix_append _ _).isInfix
    · have hbody : printAll body <:+: print (block head openTag closeTag body) :=
        ⟨openTag, closeTag, by rw [print, List.append_assoc]⟩
      exact ((ihBody h).trans hbody).trans (List.prefix_append _ _).isInfix
    · exact (ihRest h).trans (List.suffix_append _ _).isInfix

end Node

namespace Template

variable {source : Text}

-- The placeholders of a settled part of a source are placeholders of the source.
theorem settled_of_isInfix {t : Text} (h : Placeholder.Settled isCut (fun _ => True) t)
    (ht : t <:+: source) : Placeholder.Settled isCut (· ∈ Placeholder.mark.all source) t := by
  intro c behind hs hc
  obtain ⟨before, after, rfl⟩ := ht
  refine (h c behind hs hc).imp_left ?_
  rintro ⟨⟨p, rest⟩, hr, -⟩
  refine ⟨(p, rest), hr, ?_⟩
  have hread := Placeholder.read?_append hr after
  refine Placeholder.mem_all_of_suffix ?_ hread
  obtain ⟨front, rfl⟩ := hs
  exact ⟨before ++ front, by simp⟩

theorem settled_attribute {name attributes : Text} {d : Char} (hd : Form.ofSigil? d = none)
    (h : Placeholder.Settled isCut (fun _ => True)
      ((Loop.Header.first? name (Loop.Attribute.mark.all attributes)).getD [d]))
    (ha : attributes <:+: source) :
    Placeholder.Settled isCut (· ∈ Placeholder.mark.all source)
      ((Loop.Header.first? name (Loop.Attribute.mark.all attributes)).getD [d]) := by
  rcases Loop.Header.infix_or_eq name attributes d with hpart | heq
  · exact settled_of_isInfix h (hpart.trans ha)
  · rw [heq]
    exact Placeholder.settled_of_no_sigil (by simp [hd])

-- The placeholders of settled nodes are placeholders of the source that they are read from.
theorem settledIn_source
    (h : ∀ node ∈ Node.everyAll (parse source).nodes, node.SettledIn fun _ => True) :
    ∀ node ∈ Node.everyAll (parse source).nodes,
      node.SettledIn (· ∈ Placeholder.mark.all source) := by
  intro node hm
  have hsettled := h node hm
  have hprint : Node.print node <:+: source := by
    have hpart := Node.infix_of_mem_everyAll hm
    rwa [printAll_parse] at hpart
  cases node with
  | text t => exact settled_of_isInfix hsettled hprint
  | block head openTag closeTag body =>
    have hopen : openTag <:+: source := by
      refine List.IsInfix.trans ?_ hprint
      rw [Node.print]
      exact (List.prefix_append _ _).isInfix
    have hclose : closeTag <:+: source := by
      refine List.IsInfix.trans ?_ hprint
      rw [Node.print, ← List.append_assoc]
      exact (List.suffix_append _ _).isInfix
    cases head with
    | loop header =>
      obtain ⟨name, blanks, attributes, -, -, -, -, rfl, htag⟩ :=
        Tag.written_of_mem_all (allTaggedBy_parse source _ hm).1
      have hwritten : openTag = name ++ (blanks ++ (attributes ++ ['>'])) := htag
      have hattributes : attributes <:+: source := by
        refine List.IsInfix.trans ?_ hopen
        rw [hwritten]
        exact ⟨name ++ blanks, ['>'], by simp⟩
      rw [Node.SettledIn] at hsettled ⊢
      by_cases hi : (Loop.Header.read attributes).item.isSome
      · rw [if_pos hi] at hsettled ⊢
        obtain ⟨hopening, hseparator, hclosing⟩ := hsettled
        exact ⟨settled_attribute rfl hopening hattributes,
          settled_attribute rfl hseparator hattributes, settled_attribute rfl hclosing hattributes⟩
      · rw [if_neg hi] at hsettled ⊢
        exact ⟨settled_of_isInfix hsettled.1 hopen, settled_of_isInfix hsettled.2 hclose⟩
    | _ => trivial

-- The prompt list is complete where no placeholder is pieced together: a render looks for no other name
-- than those of the placeholders of the source.
theorem names_of_mem_searched {params : Params} (relevant : Text → Prop)
    (hnames : ∀ name ∈ (parse source).names, relevant name)
    (hitems : ∀ name ∈ Node.headNames (parse source).nodes, relevant name)
    (hvalues : Params.FollowedUp relevant params)
    (hnodes : ∀ node ∈ Node.everyAll (parse source).nodes, node.SettledIn fun _ => True) :
    ∀ t ∈ (parse source).searched params, ∀ name ∈ Placeholder.names t,
      name ∈ (parse source).names := by
  have hallowed : ∀ p, p ∈ Placeholder.mark.all source → relevant p.name := fun p hp =>
    hnames p.name (Placeholder.mem_names.mpr ⟨p, hp, rfl⟩)
  have hheads : ∀ header, .loop header ∈ Node.heads (parse source).nodes → ∀ item ∈ header.item,
      relevant item := by
    intro header hm item hi
    exact hitems item (List.mem_flatMap.mpr ⟨_, hm, Option.mem_toList.mpr hi⟩)
  have hsettled : ∀ t ∈ (parse source).searched params,
      Placeholder.Settled isCut (· ∈ Placeholder.mark.all source) t := by
    have hsource := settledIn_source hnodes
    exact List.forall_mem_cons.mpr ⟨Node.settled_expansion hallowed hvalues hheads hsource,
      Node.settled_searchedAll hallowed hvalues hheads hsource⟩
  intro t ht name hname
  obtain ⟨p, hp, rfl⟩ := Placeholder.mem_names.mp hname
  exact Placeholder.mem_names.mpr ⟨p, (hsettled t ht).allowed_of_mem_all hp, rfl⟩

end Template

-- A parameter that is neither an item nor in a test has no influence on a render, if no text that is
-- searched holds a placeholder of its name. If the source holds none either, this is so whenever the
-- source is settled and the sigils of all other values are followed up.
theorem render_insert (source : Text) (params : Params) (name : Text) (value : Value)
    (hheads : name ∉ Node.headNames (Template.parse source).nodes) :
    ((∀ t ∈ (Template.parse source).searched params, name ∉ Placeholder.names t) →
        render source (Table.insert name value params) = render source params) ∧
      (name ∉ (Template.parse source).names →
        (∀ node ∈ Node.everyAll (Template.parse source).nodes, node.SettledIn fun _ => True) →
        (∀ entry ∈ params, entry.1 ≠ name → Placeholder.Followed isCut entry.2.toText) →
        render source (Table.insert name value params) = render source params) := by
  have hagree : ∀ other, other ≠ name →
      params.get? other = Table.get? other (Table.insert name value params) := by
    intro other hne
    rw [Table.get?_insert, if_neg (Ne.symm hne)]
  have hsilent : (∀ t ∈ (Template.parse source).searched params, name ∉ Placeholder.names t) →
      render source (Table.insert name value params) = render source params := by
    intro hsearched
    refine (render_agree (fun other ho => hagree other ?_) fun t ht other ho => hagree other ?_).symm
    · exact fun heq => hheads (heq ▸ ho)
    · exact fun heq => hsearched t ht (heq ▸ ho)
  refine ⟨hsilent, fun hnames hnodes hvalues => hsilent fun t ht hname => hnames ?_⟩
  refine Template.names_of_mem_searched (· ≠ name) ?_ ?_ ?_ hnodes t ht name hname
  · exact fun other ho heq => hnames (heq ▸ ho)
  · exact fun other ho heq => hheads (heq ▸ ho)
  · exact fun other hne found hfound => hvalues _ (Table.mem_of_get?_eq_some hfound) hne

-- A loop, a test and a price in the text, and a value that looks like a placeholder.
theorem render_insert_secret :
    let source := "$5 in ($\x7ba\x7d)<if test=\x22b != 0\x22> and #\x7bb\x7d</if>".toList ++
      "<foreach item=\x22o\x22 open=\x22[#\x7ba\x7d\x22>#\x7bo\x7d</foreach>".toList
    let params : Params := [("a".toList, .text "x$y".toList), ("b".toList, .int 3),
      ("o".toList, .list [.text "#\x7bsecret\x7d".toList, .text "2".toList])]
    let template := Template.parse source
    "secret".toList ∉ Node.headNames template.nodes ∧ "secret".toList ∉ template.names ∧
      (∀ t ∈ template.searched params, "secret".toList ∉ Placeholder.names t) ∧
      render source params =
        "$5 in (x$y) and 3[\x27x$y\x27\x27#\x7bsecret\x7d\x27,2)".toList ∧
      render source (Table.insert "secret".toList (.text "s".toList) params) =
        render source params := by
  intro source params template
  have hheads : "secret".toList ∉ Node.headNames template.nodes := by decide +kernel
  have hnames : "secret".toList ∉ template.names := by decide +kernel
  have hrender := (render_insert source params "secret".toList (.text "s".toList) hheads).2 hnames
    (by decide +kernel) (by decide +kernel)
  have hsearched : ((template.searched params).all fun t =>
      !(Placeholder.names t).contains "secret".toList) = true := by decide +kernel
  exact ⟨hheads, hnames, by simpa using hsearched, by decide +kernel, hrender⟩

-- Where a conditional is taken out, a sigil and a brace meet: the value of a name comes in that stands
-- nowhere in the source.
theorem render_insert_pieced :
    let source := "#<if test=\x22a != null\x22></if>\x7bsecret\x7d".toList
    let template := Template.parse source
    "secret".toList ∉ template.names ∧ "secret".toList ∉ Node.headNames template.nodes ∧
      render source [] = [] ∧
      render source (Table.insert "secret".toList (.text "x".toList) []) = "\x27x\x27".toList := by
  decide +kernel

end SqlPreview
