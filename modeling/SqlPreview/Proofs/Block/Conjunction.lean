import SqlPreview.Proofs.Block.Condition
import SqlPreview.Proofs.Parameter.Element

namespace SqlPreview.Condition

-- The word that joins two tests, with blanks on both sides.
structure Connective where
  before : Text
  behind : Text
  before_ne_nil : before ≠ []
  behind_ne_nil : behind ≠ []
  allBlank_before : Text.allBlank before
  allBlank_behind : Text.allBlank behind

def Connective.toText (connective : Connective) : Text :=
  connective.before ++ ("and".toList ++ connective.behind)

-- A connective is found as a word of its own, and nothing in front of it or behind it is changed.
theorem runs_append_connective (connective : Connective) (a b : Text) :
    Text.runs (a ++ (connective.toText ++ b)) =
      Text.runs (a ++ connective.before) ++ "and".toList :: Text.runs (connective.behind ++ b) := by
  have hbefore := Text.isWord_of_allBlank connective.allBlank_before
  have hbehind := Text.isWord_of_allBlank connective.allBlank_behind
  have hand : Text.runs "and".toList = ["and".toList] := by decide
  have hfront := Text.runs_append_stretch_append connective.before_ne_nil hbefore a []
  rw [List.append_nil] at hfront
  rw [Connective.toText, List.append_assoc, List.append_assoc, hfront,
    Text.runs_append_stretch_append connective.before_ne_nil hbefore,
    Text.runs_append_stretch_append connective.behind_ne_nil hbehind, hand,
    Text.runs_stretch_append hbehind]
  simp [Text.runs]

theorem parts_append_connective (connective : Connective) (a b : Text) :
    parts (a ++ (connective.toText ++ b)) =
      parts (a ++ connective.before) ++ parts (connective.behind ++ b) := by
  rw [parts, runs_append_connective, List.splitOn_append_cons_self, List.map_append, parts, parts]

theorem and_not_mem_map_singleton (t : Text) : "and".toList ∉ t.map ([·]) := by
  intro hm
  obtain ⟨c, -, hc⟩ := List.mem_map.mp hm
  cases hc

-- Blanks at the ends of a test become part of its outer comparisons, which are read without them.
theorem comparisons_append_blank (t : Text) {tail : Text} (h : Text.allBlank tail) :
    comparisons (t ++ tail) = comparisons t := by
  by_cases hne : tail = []
  · rw [hne, List.append_nil]
  · have hruns := Text.runs_append_stretch_append hne (Text.isWord_of_allBlank h) t []
    obtain ⟨before, last, ht, htail⟩ :=
      Text.exists_splitOn_append_right (Text.runs t) (and_not_mem_map_singleton tail)
    rw [List.append_nil, show Text.runs [] = [] from rfl, List.append_nil] at hruns
    have hlast : (last ++ tail.map ([·])).flatten = last.flatten ++ tail := by
      rw [List.flatten_append, ← List.flatMap_def, List.flatMap_singleton']
    simp only [comparisons, parts, hruns, ht, htail, List.map_append, List.map_singleton, hlast,
      List.filterMap_append, List.filterMap_cons, Comparison.read?_append_blank _ h]

theorem comparisons_blank_append {lead : Text} (h : Text.allBlank lead) (t : Text) :
    comparisons (lead ++ t) = comparisons t := by
  obtain ⟨first, rest, ht, hlead⟩ :=
    Text.exists_splitOn_append_left (and_not_mem_map_singleton lead) (Text.runs t)
  have hfirst : (lead.map ([·]) ++ first).flatten = lead ++ first.flatten := by
    rw [List.flatten_append, ← List.flatMap_def, List.flatMap_singleton']
  simp only [comparisons, parts, Text.runs_stretch_append (Text.isWord_of_allBlank h), ht, hlead,
    List.map_cons, hfirst, List.filterMap_cons, Comparison.read?_blank_append h]

theorem comparisons_append_connective (connective : Connective) (a b : Text) :
    comparisons (a ++ (connective.toText ++ b)) = comparisons a ++ comparisons b := by
  rw [comparisons, parts_append_connective, List.filterMap_append, ← comparisons, ← comparisons,
    comparisons_append_blank a connective.allBlank_before,
    comparisons_blank_append connective.allBlank_behind b]

theorem holds_eq_all (params : Params) (test : Text) :
    holds params test = (comparisons test).all (Comparison.holds params) := by
  rw [Bool.eq_iff_iff, holds_iff, List.all_eq_true]

-- No part of a test is written as a comparison.
theorem comparisons_eq_nil_iff {test : Text} :
    comparisons test = [] ↔ ∀ part ∈ parts test, ∀ comparison : Comparison, ¬comparison.Written part := by
  simp only [comparisons, List.filterMap_eq_nil_iff, Option.eq_none_iff_forall_ne_some, ne_eq,
    Comparison.read?_eq_some_iff]

theorem holds_append_connective (params : Params) (connective : Connective) (a b : Text) :
    holds params (a ++ (connective.toText ++ b)) = (holds params a && holds params b) := by
  rw [holds_eq_all, comparisons_append_connective, List.all_append, ← holds_eq_all, ← holds_eq_all]

-- A clause of a test: a comparison whose name is not cut by the word `and`, with blanks around its sign,
-- or a text no part of which is written as a comparison.
inductive Clause where
  | comparison (comparison : Comparison) (before behind : Text)
      (isName_name : Name.isName comparison.name) (and_not_mem : "and".toList ∉ comparison.name.splitOn '.')
      (allBlank_before : Text.allBlank before) (allBlank_behind : Text.allBlank behind)
  | other (t : Text) (not_written : ∀ part ∈ parts t, ∀ comparison : Comparison, ¬comparison.Written part)

namespace Clause

def toText : Clause → Text
  | comparison c before behind .. => c.toText before behind
  | other t _ => t

-- What a clause asks for: that the parameter is present and not blank, or present and its text is no zero.
-- A clause of any other shape asks for nothing.
def asks (params : Params) : Clause → Bool
  | comparison ⟨name, literal⟩ .. =>
    (params.get? name).any fun value =>
      match literal with
      | .null | .empty => Text.trim value.toText != []
      | .zero => Text.trim value.toText != ['0']
  | other .. => true

theorem holds_toText (params : Params) (clause : Clause) : holds params clause.toText = clause.asks params := by
  cases clause with
  | comparison c before behind hname hand hbefore hbehind =>
    obtain ⟨name, literal⟩ := c
    rw [toText, Condition.holds_toText hname hand hbefore hbehind, Comparison.holds, asks]
    cases params.get? name with
    | none => rfl
    | some value =>
      have hblank : (!value.isBlank) = (Text.trim value.toText != []) := by
        rw [Value.isBlank_eq_allBlank_toText, Bool.eq_iff_iff, bne_iff_ne, Ne, Text.trim_eq_nil_iff,
          Bool.not_eq_true', Bool.not_eq_true]
      cases literal <;> simp only [Option.any_some, Literal.differs, hblank]
  | other t hunread =>
    rw [toText, holds_eq_all, comparisons_eq_nil_iff.mpr hunread, asks, List.all_nil]

-- A row of clauses, each with the connective in front of it but for the first one.
def row (first : Clause) (rest : List (Connective × Clause)) : Text :=
  first.toText ++ rest.flatMap fun next => next.1.toText ++ next.2.toText

theorem row_cons (first next : Clause) (connective : Connective) (rest : List (Connective × Clause)) :
    row first ((connective, next) :: rest) = first.toText ++ (connective.toText ++ row next rest) := by
  simp only [row, List.flatMap_cons, List.append_assoc]

theorem holds_row (params : Params) (first : Clause) (rest : List (Connective × Clause)) :
    holds params (row first rest) = (first :: rest.map Prod.snd).all (asks params) := by
  induction rest generalizing first with
  | nil => simp [row, holds_toText]
  | cons joined rest ih =>
    obtain ⟨connective, next⟩ := joined
    rw [row_cons, holds_append_connective, ih, holds_toText]
    rfl

end Clause

-- The word `and` between blanks is conjunction, whatever stands on both sides of it. So a row of clauses
-- holds exactly if each comparison in it does, by what it asks of its parameter.
theorem holds_conjunction (params : Params) :
    (∀ a before behind b, before ≠ [] → behind ≠ [] → Text.allBlank before → Text.allBlank behind →
        holds params (a ++ before ++ "and".toList ++ behind ++ b) =
          (holds params a && holds params b)) ∧
      ∀ (first : Clause) (rest : List (Connective × Clause)),
        holds params (Clause.row first rest) = (first :: rest.map Prod.snd).all (Clause.asks params) := by
  refine ⟨fun a before behind b hbefore hbehind hblank hblank' => ?_, Clause.holds_row params⟩
  let connective : Connective := ⟨before, behind, hbefore, hbehind, hblank, hblank'⟩
  have hjoined := holds_append_connective params connective a b
  simpa only [connective, Connective.toText, List.append_assoc] using hjoined

-- The word stands at the ends of both sides too, once within a longer word; and a row with all three
-- literals and a clause of another shape fails by its comparison with zero.
theorem holds_conjunction_zero :
    let params : Params := [("a.b".toList, .text "x".toList), ("n".toList, .list [.text " 0 ".toList])]
    let row (literal : Literal) :=
      Clause.row (.comparison ⟨"a.b".toList, .null⟩ [] "\t".toList (by decide +kernel) (by decide)
          (by decide) (by decide))
        [(⟨" ".toList, "\n".toList, by decide, by decide, by decide, by decide⟩,
            .other "n = 0 or (and)".toList (comparisons_eq_nil_iff.mp (by decide +kernel))),
          (⟨"  ".toList, " ".toList, by decide, by decide, by decide, by decide⟩,
            .comparison ⟨"n".toList, literal⟩ " ".toList " ".toList
              (show Name.isName "n".toList by decide) (show "and".toList ∉ "n".toList.splitOn '.' by decide)
              (by decide) (by decide))]
    "\t".toList ≠ [] ∧ Text.allBlank "\t".toList ∧
      holds params ("n != 0 and".toList ++ "\t".toList ++ "and".toList ++ "\t".toList ++ "and.n != ''".toList) =
        (holds params "n != 0 and".toList && holds params "and.n != ''".toList) ∧
      row .zero = "a.b!=\tnull and\nn = 0 or (and)  and n != 0".toList ∧
      holds params (row .empty) ∧ holds params (row .zero) = false := by
  intro params row
  obtain ⟨hjoined, hrow⟩ := holds_conjunction params
  refine ⟨by decide, by decide, hjoined _ _ _ _ (by decide) (by decide) (by decide) (by decide), ?_, ?_, ?_⟩
  · decide +kernel
  · exact (hrow _ _).trans (by decide +kernel)
  · exact (hrow _ _).trans (by decide +kernel)

end SqlPreview.Condition
