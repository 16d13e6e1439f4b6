import Mathlib.Tactic.TFAE
import SqlPreview.Proofs.Block.Condition
import SqlPreview.Proofs.Parameter.Element
import SqlPreview.Proofs.Parameter.Occurrence
import SqlPreview.Template.Expansion

namespace SqlPreview

theorem Form.write_ne_nil (form : Form) {t : Text} (h : t ≠ []) : form.write t ≠ [] := by
  cases form with
  | plain => exact h
  | quoted =>
    simp only [write]
    split
    · exact h
    · simp

namespace Placeholder

variable {params : Params} {name : Text}

theorem fill_ne_nil_iff {p : Placeholder} : fill params p ≠ [] ↔ Params.isGiven params p.name := by
  rw [fill, Params.isGiven]
  cases params.get? p.name with
  | none => simp
  | some value =>
    cases hblank : value.isBlank with
    | true => simp [hblank]
    | false =>
      have htext : value.toText ≠ [] := by
        intro hnil
        rw [Value.isBlank_eq_allBlank_toText, hnil] at hblank
        cases hblank
      simp [hblank, p.form.write_ne_nil htext]

theorem fillAll_toText_ne_nil_iff (params : Params) (h : Name.isName name) (form : Form) :
    fillAll params (toText ⟨form, name⟩) ≠ [] ↔ Params.isGiven params name := by
  have hfill : fillAll params (toText ⟨form, name⟩) = fill params ⟨form, name⟩ :=
    replace_toText h (fill params)
  rw [hfill, fill_ne_nil_iff]

end Placeholder

namespace Condition

-- There is one notion of blankness: that of a value is that of its text, and it decides over the tests
-- of a name, over what both forms of its placeholder leave, and over the body of a conditional.
theorem given_tfae :
    (∀ value : Value, value.isBlank ↔ Text.trim value.toText = []) ∧
      ∀ (params : Params) (name : Text), Name.isName name → "and".toList ∉ name.splitOn '.' →
        List.TFAE [holds params (name ++ " != null".toList), holds params (name ++ " != ''".toList),
            Placeholder.fillAll params (Placeholder.toText ⟨.plain, name⟩) ≠ [],
            Placeholder.fillAll params (Placeholder.toText ⟨.quoted, name⟩) ≠ []] ∧
          ∀ (plan : Plan) (form : Form) (literal : Literal) (openTag closeTag : Text) (body : List Node),
            plan.params = params → plan.kinds.conditional → literal ≠ .zero →
            Node.expand plan (.block (.conditional (Comparison.toText ⟨name, literal⟩ [' '] [' ']))
                openTag closeTag body) =
              if Placeholder.fillAll params (Placeholder.toText ⟨form, name⟩) = [] then .empty
              else Node.expandAll plan body := by
  refine ⟨fun value => ?_, fun params name hname hand => ?_⟩
  · rw [Value.isBlank_eq_allBlank_toText, Text.trim_eq_nil_iff]
  · have hfill := Placeholder.fillAll_toText_ne_nil_iff params hname
    have htest : ∀ literal, literal ≠ .zero →
        holds params (Comparison.toText ⟨name, literal⟩ [' '] [' ']) = Params.isGiven params name :=
      fun literal h => holds_toText_of_ne_zero hname hand (by decide) (by decide) h
    have hnull : holds params (name ++ " != null".toList) = Params.isGiven params name :=
      htest .null Literal.noConfusion
    have hempty : holds params (name ++ " != ''".toList) = Params.isGiven params name :=
      htest .empty Literal.noConfusion
    refine ⟨?_, ?_⟩
    · rw [hnull, hempty]
      tfae_have 1 ↔ 2 := Iff.rfl
      tfae_have 1 ↔ 3 := (hfill .plain).symm
      tfae_have 3 ↔ 4 := (hfill .plain).trans (hfill .quoted).symm
      tfae_finish
    · rintro plan form literal openTag closeTag body rfl hkind hliteral
      simp only [Node.expand, hkind, if_true, htest literal hliteral, ← hfill form, ne_eq, ite_not]

-- A list with a record of blanks in it is blank; one of two values that are none has a comma in its text,
-- and so is not.
theorem given_tfae_nested :
    let params : Params := [("a.b".toList, .list [.record [("k".toList, .text "\t".toList)]]),
      ("c".toList, .list [.null, .null])]
    let plan : Plan := ⟨params, .only .conditional, true⟩
    let body : List Node := [.text "x".toList]
    Name.isName "a.b".toList ∧ "and".toList ∉ "a.b".toList.splitOn '.' ∧
      (holds params "a.b != ''".toList ↔ Placeholder.fillAll params "#\x7ba.b\x7d".toList ≠ []) ∧
      Node.expand plan (.block (.conditional "a.b != ''".toList) [] [] body) = .empty ∧
      (holds params "c != null".toList ↔ Placeholder.fillAll params "$\x7bc\x7d".toList ≠ []) ∧
      Node.expand plan (.block (.conditional "c != null".toList) [] [] body) =
        Node.expandAll plan body := by
  intro params plan body
  have hname : Name.isName "a.b".toList := by decide +kernel
  have hand : "and".toList ∉ "a.b".toList.splitOn '.' := by decide
  obtain ⟨hblank, hblankIf⟩ := given_tfae.2 params "a.b".toList hname hand
  obtain ⟨hfilled, hfilledIf⟩ := given_tfae.2 params "c".toList (by decide +kernel) (by decide)
  refine ⟨hname, hand, hblank.out 1 3, ?_, hfilled.out 0 2, ?_⟩
  · exact (hblankIf plan .quoted .empty [] [] body rfl rfl (by decide)).trans (if_pos (by decide +kernel))
  · exact (hfilledIf plan .plain .null [] [] body rfl rfl (by decide)).trans (if_neg (by decide +kernel))

end Condition

end SqlPreview
