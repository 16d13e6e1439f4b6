import SqlPreview.Proofs.Block.Clause
import SqlPreview.Proofs.Block.Condition
import SqlPreview.Proofs.Template.Residue

namespace SqlPreview

-- A part of a clause that is kept if a parameter is given. No blank stands at its ends, and no tag begins
-- in it.
structure OptionalPart where
  name : Text
  text : Text
  isName_name : Name.isName name
  and_not_mem : "and".toList ∉ name.splitOn '.'
  text_ne_nil : text ≠ []
  trim_text : Text.trim text = text
  angle_not_mem : '<' ∉ text

namespace OptionalPart

def isKept (params : Params) (part : OptionalPart) : Bool :=
  (params.get? part.name).any fun value => !value.isBlank

-- The texts of the parts that are kept.
def kept (params : Params) (parts : List OptionalPart) : List Text :=
  (parts.filter (isKept params)).map text

-- The conditional that a part stands in, with what is around the text in there.
def source (before after : Text) (part : OptionalPart) : Text :=
  "<if test=\x22".toList ++ part.name ++ " != null\x22>".toList ++ before ++ part.text ++ after ++
    "</if>".toList

-- A WHERE block with a predicate in every part.
def whereSource (parts : List OptionalPart) : Text :=
  "<where>".toList ++ parts.flatMap (source "and ".toList " ".toList) ++ "</where>".toList

-- A SET block with an assignment in every part, each on a line. There may be more blanks behind every
-- conditional, and in front of the end of the block.
def setSource (behind last : Text) (parts : List OptionalPart) : Text :=
  "<set>".toList ++ parts.flatMap (fun part => "\n".toList ++ source [] ",".toList part ++ behind) ++
    last ++ "</set>".toList

-- A part with what stands around its conditional, and around its text inside of that.
def nodes (lead before after behind : Text) (part : OptionalPart) : List Node :=
  [.text lead,
    .block (.conditional (Condition.given part.name))
      ("<if test=\x22".toList ++ (Condition.given part.name ++ "\x22>".toList)) "</if>".toList
      [.text (before ++ (part.text ++ after))],
    .text behind]

def whereNodes (parts : List OptionalPart) : List Node :=
  [.block .whereClause "<where>".toList "</where>".toList
    (parts.flatMap (nodes [] "and ".toList " ".toList []))]

def setNodes (behind last : Text) (parts : List OptionalPart) : List Node :=
  [.block .setClause "<set>".toList "</set>".toList
    (parts.flatMap (nodes "\n".toList [] ",".toList behind) ++ [.text last])]

theorem printAll_flatMap_nodes (lead before after behind : Text) (parts : List OptionalPart) :
    Node.printAll (parts.flatMap (nodes lead before after behind)) =
      parts.flatMap fun part => lead ++ source before after part ++ behind := by
  induction parts with
  | nil => simp
  | cons part parts ih =>
    have hopen : Condition.given part.name ++ "\x22>".toList = part.name ++ " != null\x22>".toList := by
      have hjoin : " != null".toList ++ "\x22>".toList = " != null\x22>".toList := by decide
      rw [Condition.given, List.append_assoc, hjoin]
    rw [List.flatMap_cons, Node.printAll_append, ih, List.flatMap_cons]
    unfold nodes source
    simp only [hopen, Node.printAll_text, Node.printAll_block, Node.printAll_nil, List.append_assoc,
      List.append_nil]

theorem printAll_whereNodes (parts : List OptionalPart) :
    Node.printAll (whereNodes parts) = whereSource parts := by
  unfold whereNodes whereSource
  simp only [Node.printAll_block, Node.printAll_nil, printAll_flatMap_nodes, List.append_assoc,
    List.nil_append, List.append_nil]

theorem printAll_setNodes (behind last : Text) (parts : List OptionalPart) :
    Node.printAll (setNodes behind last parts) = setSource behind last parts := by
  unfold setNodes setSource
  simp only [Node.printAll_block, Node.printAll_text, Node.printAll_nil, Node.printAll_append,
    printAll_flatMap_nodes, List.append_assoc, List.append_nil]

theorem lawfulAll_flatMap_nodes {lead before after behind : Text} (hlead : '<' ∉ lead)
    (hbefore : '<' ∉ before) (hafter : '<' ∉ after) (hbehind : '<' ∉ behind)
    (parts : List OptionalPart) :
    Node.LawfulAll (parts.flatMap (nodes lead before after behind)) := by
  induction parts with
  | nil => exact Node.lawfulAll_nil
  | cons part parts ih =>
    have hquote : '"' ∉ Condition.given part.name := by
      have hname : '"' ∉ part.name := fun hm => by
        have hchar := Name.isNameChar_of_mem part.isName_name hm
        revert hchar
        decide
      simp [Condition.given, hname]
    have hopen : (Block.Head.conditional (Condition.given part.name)).OpenedBy
        ("<if test=\x22".toList ++ (Condition.given part.name ++ "\x22>".toList)) :=
      ⟨[' '], by decide, by decide, by simp [Condition.given], hquote, rfl⟩
    have htext : '<' ∉ before ++ (part.text ++ after) := by
      simp [hbefore, part.angle_not_mem, hafter]
    rw [List.flatMap_cons]
    exact Node.lawfulAll_append.mpr ⟨Node.lawfulAll_text.mpr ⟨Tag.isCalm_of_not_mem hlead,
      Node.lawfulAll_block.mpr ⟨⟨hopen, rfl⟩, Node.lawfulAll_text.mpr
        ⟨Tag.isCalm_of_not_mem htext, Node.lawfulAll_nil⟩, Node.lawfulAll_text.mpr
          ⟨Tag.isCalm_of_not_mem hbehind, Node.lawfulAll_nil⟩⟩⟩, ih⟩

theorem lawfulAll_whereNodes (parts : List OptionalPart) : Node.LawfulAll (whereNodes parts) :=
  Node.lawfulAll_block.mpr ⟨⟨rfl, rfl⟩,
    lawfulAll_flatMap_nodes (by decide) (by decide) (by decide) (by decide) parts, Node.lawfulAll_nil⟩

theorem lawfulAll_setNodes {behind last : Text} (hbehind : Text.allBlank behind)
    (hlast : Text.allBlank last) (parts : List OptionalPart) :
    Node.LawfulAll (setNodes behind last parts) := by
  have hangle : Text.isBlank '<' = false := by decide
  exact Node.lawfulAll_block.mpr ⟨⟨rfl, rfl⟩, Node.lawfulAll_append.mpr
    ⟨lawfulAll_flatMap_nodes (by decide) (by decide) (by decide)
        (Text.not_mem_of_allBlank hangle hbehind) parts,
      Node.lawfulAll_text.mpr ⟨Tag.isCalm_of_not_mem (Text.not_mem_of_allBlank hangle hlast),
        Node.lawfulAll_nil⟩⟩, Node.lawfulAll_nil⟩

section Expansion

variable {plan : Plan}

-- A part is written if it is kept; what stands around it is written anyway.
theorem expansion_flatMap_nodes (hif : plan.kinds.conditional) (lead before after behind : Text)
    (parts : List OptionalPart) :
    Node.expansion plan (parts.flatMap (nodes lead before after behind)) = parts.flatMap fun part =>
      lead ++ ((if part.isKept plan.params then before ++ (part.text ++ after) else []) ++ behind) := by
  induction parts with
  | nil => simp
  | cons part parts ih =>
    have hexpands : plan.expands (.conditional (Condition.given part.name)) :=
      Plan.expands_of_contains hif rfl
    rw [List.flatMap_cons, Node.expansion_append, ih, List.flatMap_cons, nodes, Node.expansion_text,
      Node.expansion_conditional hexpands, Condition.holds_given part.isName_name part.and_not_mem,
      Params.isGiven, isKept]
    simp

theorem flatMap_ite_isKept {α : Type} (params : Params) (f : Text → List α)
    (parts : List OptionalPart) :
    (parts.flatMap fun part => if part.isKept params then f part.text else []) =
      (kept params parts).flatMap f := by
  induction parts with
  | nil => rfl
  | cons part parts ih =>
    rw [List.flatMap_cons, ih]
    cases hkept : part.isKept params <;> simp [kept, hkept]

-- The body of the WHERE block loses the connective of the first predicate that is kept.
theorem expansion_whereNodes (hif : plan.kinds.conditional) (hwhere : plan.kinds.whereClause)
    (parts : List OptionalPart) :
    Node.expansion plan (whereNodes parts) =
      if kept plan.params parts = [] then []
      else "WHERE ".toList ++ " and ".toList.intercalate (kept plan.params parts) := by
  have hexpands : plan.expands .whereClause := Plan.expands_of_contains hwhere rfl
  have hbody : Node.expansion plan (parts.flatMap (nodes [] "and ".toList " ".toList [])) =
      (kept plan.params parts).flatMap fun t => "and ".toList ++ (t ++ " ".toList) := by
    rw [expansion_flatMap_nodes hif, ← flatMap_ite_isKept]
    simp only [List.nil_append, List.append_nil]
  have htexts : ∀ t ∈ kept plan.params parts, t ≠ [] ∧ Text.trim t = t := by
    intro t ht
    obtain ⟨part, -, rfl⟩ := List.mem_map.mp ht
    exact ⟨part.text_ne_nil, part.trim_text⟩
  rw [whereNodes, Node.expansion_block, if_pos hexpands, Plan.write, hbody, Node.expansion_nil,
    List.append_nil]
  cases hkept : kept plan.params parts with
  | nil => rfl
  | cons t texts =>
    rw [hkept] at htexts
    have hne : " and ".toList.intercalate (t :: texts) ≠ [] := by
      have ht := (htexts t List.mem_cons_self).1
      cases texts <;> simp [ht]
    rw [Text.flatMap_around_cons, if_neg (by simp)]
    exact WhereClause.ofBody_and hne (Text.trim_intercalate_eq_self htexts)

-- Every part that is kept is a line of the SET block by itself.
theorem filledLines_flatMap_isKept (params : Params) {behind last : Text}
    (hbehind : Text.allBlank behind) (hlast : Text.allBlank last) {parts : List OptionalPart}
    (hline : ∀ part ∈ parts, '\n' ∉ part.text) :
    SetClause.filledLines (parts.flatMap (fun part =>
        '\n' :: ((if part.isKept params then part.text ++ [','] else []) ++ behind)) ++ last) =
      (kept params parts).map (· ++ [',']) := by
  have hpart : ∀ part ∈ parts,
      SetClause.filledLines ((if part.isKept params then part.text ++ [','] else []) ++ behind) =
        if part.isKept params then [part.text ++ [',']] else [] := by
    intro part hp
    rw [SetClause.filledLines_append_blank _ hbehind]
    split
    · have hcomma : Text.trim [','] = [','] := by decide
      have htrim := Text.trim_append_append_eq_self part.text_ne_nil (by decide) part.trim_text hcomma []
      rw [List.append_nil] at htrim
      exact SetClause.filledLines_of_trim (by simp) htrim (by simp [hline part hp])
    · rfl
  have hbodies := SetClause.filledLines_flatMap_cons (parts.map fun part =>
    (if part.isKept params then part.text ++ [','] else []) ++ behind)
  rw [List.flatMap_map, List.flatMap_map, List.flatMap_congr hpart,
    flatMap_ite_isKept params (fun t => [t ++ [',']])] at hbodies
  rw [SetClause.filledLines_append_blank _ hlast, hbodies, List.map_eq_flatMap]

theorem expansion_setNodes (hif : plan.kinds.conditional) (hset : plan.kinds.setClause)
    {behind last : Text} (hbehind : Text.allBlank behind) (hlast : Text.allBlank last)
    {parts : List OptionalPart} (hline : ∀ part ∈ parts, '\n' ∉ part.text) :
    Node.expansion plan (setNodes behind last parts) =
      "SET\n".toList ++ ",\n".toList.intercalate (kept plan.params parts) := by
  have hexpands : plan.expands .setClause := Plan.expands_of_contains hset rfl
  rw [setNodes, Node.expansion_block, if_pos hexpands, Plan.write, Node.expansion_append,
    expansion_flatMap_nodes hif, Node.expansion_text, Node.expansion_nil, List.append_nil,
    List.append_nil, SetClause.ofBody, ← SetClause.intercalate_punctuate_commas,
    ← filledLines_flatMap_isKept plan.params hbehind hlast hline]
  rfl

end Expansion

-- Whichever parts are kept, a WHERE block has `and` between their predicates and none in front, and is
-- gone without any; a SET block has a comma between their assignments and none behind.
theorem expand_optional (params : Params) (parts : List OptionalPart) :
    (Template.parse (whereSource parts)).expand params
        ((Block.Kinds.only .conditional).union (.only .whereClause)) =
      (if kept params parts = [] then []
        else "WHERE ".toList ++ " and ".toList.intercalate (kept params parts)) ∧
    ∀ behind last, Text.allBlank behind → Text.allBlank last →
      (∀ part ∈ parts, '\n' ∉ part.text) →
        (Template.parse (setSource behind last parts)).expand params
            ((Block.Kinds.only .conditional).union (.only .setClause)) =
          "SET\n".toList ++ ",\n".toList.intercalate (kept params parts) := by
  constructor
  · rw [← printAll_whereNodes, Template.expand_parse_printAll (lawfulAll_whereNodes parts)]
    exact expansion_whereNodes rfl rfl parts
  · intro behind last hbehind hlast hline
    rw [← printAll_setNodes,
      Template.expand_parse_printAll (lawfulAll_setNodes hbehind hlast parts)]
    exact expansion_setNodes rfl rfl hbehind hlast hline

-- One parameter is given, one is blank, one is missing, and one is given under a name of two segments.
theorem expand_optional_four :
    let part (name text : String) (hname : Name.isName name.toList)
        (hand : "and".toList ∉ name.toList.splitOn '.') (hne : text.toList ≠ [])
        (htrim : Text.trim text.toList = text.toList) (hangle : '<' ∉ text.toList) : OptionalPart :=
      ⟨name.toList, text.toList, hname, hand, hne, htrim, hangle⟩
    let parts := [part "a" "x = #\x7ba\x7d" (by decide) (by decide) (by decide) (by decide) (by decide),
      part "b" "y = 2," (by decide) (by decide) (by decide) (by decide) (by decide),
      part "c" "z = 3" (by decide) (by decide) (by decide) (by decide) (by decide),
      part "d.e" "and = 4" (by decide) (by decide) (by decide) (by decide) (by decide)]
    let params : Params := [("a".toList, .int 1), ("b".toList, .text " ".toList),
      ("d.e".toList, .text "0".toList)]
    Text.allBlank [] ∧ Text.allBlank ['\n'] ∧ (∀ part ∈ parts, '\n' ∉ part.text) ∧
      (Template.parse (whereSource parts)).expand params ⟨true, false, false, true⟩ =
        "WHERE x = #\x7ba\x7d and and = 4".toList ∧
      (Template.parse (setSource [] ['\n'] parts)).expand params ⟨true, false, true, false⟩ =
        "SET\nx = #\x7ba\x7d,\nand = 4".toList := by
  intro part parts params
  have hline : ∀ part ∈ parts, '\n' ∉ part.text := by decide
  have hexpand := expand_optional params parts
  exact ⟨rfl, rfl, hline, hexpand.1.trans (by decide +kernel),
    (hexpand.2 [] ['\n'] rfl rfl hline).trans (by decide +kernel)⟩

end OptionalPart

end SqlPreview
