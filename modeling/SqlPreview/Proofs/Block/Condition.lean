import SqlPreview.Proofs.Block.Comparison
import SqlPreview.Proofs.Text.Word

namespace SqlPreview

namespace Name

-- The runs of a name are its segments and the points between them.
theorem eq_or_mem_of_mem_runs {segments : List Text} {run : Text}
    (h : ∀ segment ∈ segments, segment ≠ [] ∧ ∀ c ∈ segment, Text.isWord c)
    (hr : run ∈ Text.runs (['.'].intercalate segments)) : run = ['.'] ∨ run ∈ segments := by
  induction segments with
  | nil => simp [Text.runs] at hr
  | cons segment segments ih =>
    obtain ⟨⟨hne, hword⟩, hrest⟩ := List.forall_mem_cons.mp h
    have hsegment : Text.runs segment = [segment] := Text.runs_of_forall_word hne hword
    cases segments with
    | nil =>
      rw [List.intercalate_singleton, hsegment] at hr
      exact .inr hr
    | cons next segments =>
      rw [List.intercalate_cons_cons, List.append_assoc, List.singleton_append,
        Text.runs_append_cons (by decide), hsegment, List.singleton_append, List.mem_cons,
        List.mem_cons] at hr
      rcases hr with rfl | rfl | hr
      · exact .inr List.mem_cons_self
      · exact .inl rfl
      · exact (ih hrest hr).imp_right (List.mem_cons_of_mem _)

theorem not_mem_runs {name word : Text} (h : isName name) (hpoint : word ≠ ['.'])
    (hword : word ∉ name.splitOn '.') : word ∉ Text.runs name := by
  intro hr
  have hjoin : ['.'].intercalate (name.splitOn '.') = name := List.intercalate_splitOn '.'
  rw [← hjoin] at hr
  refine (eq_or_mem_of_mem_runs (fun segment hs => ?_) hr).elim hpoint hword
  have hsegment := List.all_eq_true.mp h segment hs
  rw [Bool.and_eq_true, bne_iff_ne] at hsegment
  exact ⟨hsegment.1, List.all_eq_true.mp hsegment.2⟩

end Name

-- A parameter is present, and its value is not blank.
def Params.isGiven (params : Params) (name : Text) : Bool :=
  (params.get? name).any fun value => !value.isBlank

namespace Condition

variable {params : Params} {name test : Text}

-- The comparisons of a test. Its other parts say nothing.
def comparisons (test : Text) : List Comparison :=
  (parts test).filterMap Comparison.read?

theorem holds_iff : holds params test ↔ ∀ comparison ∈ comparisons test, comparison.holds params := by
  rw [holds, List.all_eq_true]
  constructor
  · intro h comparison hc
    obtain ⟨part, hp, hr⟩ := List.mem_filterMap.mp hc
    have hpart := h part hp
    rwa [hr, Option.all_some] at hpart
  · intro h part hp
    cases hr : Comparison.read? part with
    | none => rfl
    | some comparison => exact h comparison (List.mem_filterMap.mpr ⟨part, hp, hr⟩)

-- A test without the word `and` is a single part.
theorem parts_of_not_mem_runs (h : "and".toList ∉ Text.runs test) : parts test = [test] := by
  rw [parts, List.splitOn_eq_singleton h, List.map_singleton, Text.flatten_runs]

section Comparison

variable {comparison : Comparison} {before behind : Text} (hname : Name.isName comparison.name)
  (hand : "and".toList ∉ comparison.name.splitOn '.') (hbefore : Text.allBlank before)
  (hbehind : Text.allBlank behind)
include hname hand hbefore hbehind

-- Only the name of a comparison could hold the word `and`.
theorem and_not_mem_runs_toText : "and".toList ∉ Text.runs (comparison.toText before behind) := by
  have hsign : ∀ c ∈ "!=".toList, Text.isWord c = false :=
    List.forall_mem_cons.mpr ⟨by decide, List.forall_mem_singleton.mpr (by decide)⟩
  have hstretch : ∀ c ∈ before ++ ("!=".toList ++ behind), Text.isWord c = false :=
    List.forall_mem_append.mpr ⟨Text.isWord_of_allBlank hbefore,
      List.forall_mem_append.mpr ⟨hsign, Text.isWord_of_allBlank hbehind⟩⟩
  have htext : comparison.toText before behind =
      comparison.name ++ ((before ++ ("!=".toList ++ behind)) ++ comparison.literal.toText) := by
    simp only [Comparison.toText, List.append_assoc]
  rw [htext, Text.runs_append_stretch_append (by simp) hstretch, List.mem_append, List.mem_append]
  rintro (hm | hm | hm)
  · exact Name.not_mem_runs hname (by decide) hand hm
  · obtain ⟨c, -, hc⟩ := List.mem_map.mp hm
    cases hc
  · revert hm
    cases comparison.literal <;> decide

theorem holds_toText : holds params (comparison.toText before behind) = comparison.holds params := by
  have hruns := and_not_mem_runs_toText hname hand hbefore hbehind
  rw [holds, parts_of_not_mem_runs hruns, List.all_cons, List.all_nil, Bool.and_true,
    Comparison.read?_toText hname hbefore hbehind, Option.all_some]

-- Other than null and other than an empty text is what is given.
theorem holds_toText_of_ne_zero (h : comparison.literal ≠ .zero) :
    holds params (comparison.toText before behind) = Params.isGiven params comparison.name := by
  rw [holds_toText hname hand hbefore hbehind, Comparison.holds, Params.isGiven]
  cases params.get? comparison.name with
  | none => rfl
  | some value =>
    cases hliteral : comparison.literal with
    | null => rfl
    | empty => rfl
    | zero => exact absurd hliteral h

end Comparison

-- The test that a parameter is given.
def given (name : Text) : Text :=
  name ++ " != null".toList

theorem given_eq (name : Text) : given name = Comparison.toText ⟨name, .null⟩ [' '] [' '] :=
  rfl

theorem read?_given (h : Name.isName name) : Comparison.read? (given name) = some ⟨name, .null⟩ := by
  rw [given_eq, Comparison.read?_toText h (by decide) (by decide)]

theorem holds_given (h : Name.isName name) (hand : "and".toList ∉ name.splitOn '.') :
    holds params (given name) = Params.isGiven params name := by
  rw [given_eq, holds_toText_of_ne_zero h hand (by decide) (by decide) Literal.noConfusion]

end Condition

end SqlPreview
