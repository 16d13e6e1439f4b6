import SqlPreview.Proofs.Block.Condition
import SqlPreview.Proofs.Template.Interchange

namespace SqlPreview

-- A test that comes down to one of its comparisons: all others hold.
def Condition.HingesOn (params : Params) (comparison : Comparison) (test : Text) : Prop :=
  comparison ∈ comparisons test ∧
    ∀ other ∈ comparisons test, other ≠ comparison → other.holds params

instance (params : Params) (comparison : Comparison) (test : Text) :
    Decidable (Condition.HingesOn params comparison test) :=
  inferInstanceAs (Decidable (_ ∧ _))

section Blank

variable {params : Params} {name : Text} {value : Value} (habsent : params.get? name = none)
  (hblank : value.isBlank)
include habsent hblank

theorem Params.fillsAlike_insert_blank (helements : Loop.elements (some value) = []) :
    Params.FillsAlike params (Table.insert name value params) := by
  constructor
  · funext p
    rw [Placeholder.fill_eq, Placeholder.fill_eq, Table.get?_insert]
    by_cases hp : name = p.name
    · rw [if_pos hp, ← hp, habsent, Value.shown?, Value.shown?, if_pos hblank]
    · rw [if_neg hp]
  · intro item
    rw [Table.get?_insert]
    by_cases hi : name = item
    · rw [if_pos hi, ← hi, habsent, helements, Loop.elements]
    · rw [if_neg hi]

-- Of the comparisons of the name only the one with zero is changed.
theorem Comparison.holds_insert_blank (comparison : Comparison) :
    comparison.holds (Table.insert name value params) ↔
      comparison.holds params ∨ comparison = ⟨name, .zero⟩ := by
  have htrim : Text.trim value.toText = [] := by
    rw [Text.trim_eq_nil_iff, ← Value.isBlank_eq_allBlank_toText, hblank]
  obtain ⟨other, literal⟩ := comparison
  simp only [Comparison.holds, Table.get?_insert, Comparison.mk.injEq]
  by_cases hn : name = other
  · subst hn
    cases literal <;> simp [habsent, Literal.differs, hblank, htrim]
  · simp [hn, Ne.symm hn]

theorem Condition.holds_insert_blank (test : Text) :
    Condition.holds (Table.insert name value params) test ↔
      Condition.holds params test ∨ Condition.HingesOn params ⟨name, .zero⟩ test := by
  rw [Condition.holds_iff, Condition.holds_iff]
  simp only [Comparison.holds_insert_blank habsent hblank]
  constructor
  · intro h
    by_cases hm : ⟨name, .zero⟩ ∈ Condition.comparisons test
    · exact .inr ⟨hm, fun other ho hne => (h other ho).resolve_right hne⟩
    · exact .inl fun other ho => (h other ho).resolve_right fun he => hm (he ▸ ho)
  · rintro (h | h) other ho
    · exact .inl (h other ho)
    · by_cases he : other = ⟨name, .zero⟩
      · exact .inr he
      · exact .inl (h.2 other ho he)

end Blank

-- A test that comes down to a comparison of a missing parameter fails.
theorem Condition.HingesOn.holds_eq_false {params : Params} {comparison : Comparison} {test : Text}
    (h : Condition.HingesOn params comparison test) (habsent : params.get? comparison.name = none) :
    Condition.holds params test = false := by
  rw [Bool.eq_false_iff]
  intro hholds
  have hcomparison := Condition.holds_iff.mp hholds comparison h.1
  rw [Comparison.holds, habsent] at hcomparison
  cases hcomparison

-- A name without a value and a name with a blank one make the same statement, unless some test that
-- matters comes down to the comparison of the name with zero. Such a test has one outcome for either.
theorem render_insert_blank (source : Text) (params : Params) (name : Text) (value : Value)
    (habsent : params.get? name = none)
    (hblank : value = .null ∨ ∃ t, value = .text t ∧ Text.trim t = []) :
    (∀ test, Condition.holds params test ≠ Condition.holds (Table.insert name value params) test ↔
        Condition.HingesOn params ⟨name, .zero⟩ test) ∧
      ((∀ test ∈ Node.testsAll params (Template.parse source).nodes,
          ¬Condition.HingesOn params ⟨name, .zero⟩ test) →
        render source params = render source (Table.insert name value params)) := by
  have hvalue : value.isBlank ∧ Loop.elements (some value) = [] := by
    rcases hblank with rfl | ⟨t, rfl, ht⟩
    · exact ⟨rfl, rfl⟩
    · exact ⟨Text.trim_eq_nil_iff.mp ht, by rw [Loop.elements, Loop.textElements, if_pos ht]⟩
  have hdiffers : ∀ test, Condition.holds params test ≠
      Condition.holds (Table.insert name value params) test ↔
        Condition.HingesOn params ⟨name, .zero⟩ test := by
    intro test
    have hinsert := Condition.holds_insert_blank habsent hvalue.1 test
    constructor
    · intro hne
      by_cases hholds : Condition.holds params test
      · exact absurd (hholds.trans (hinsert.mpr (.inl hholds)).symm) hne
      · refine (hinsert.mp ?_).resolve_left hholds
        simpa [hholds] using hne
    · intro hhinges
      rw [hhinges.holds_eq_false habsent, hinsert.mpr (.inr hhinges)]
      decide
  refine ⟨hdiffers, fun htests => ?_⟩
  refine (Params.fillsAlike_insert_blank habsent hvalue.1 hvalue.2).render_eq_render fun test ht => ?_
  exact Classical.byContradiction fun hne => htests test ht ((hdiffers test).mp hne)

-- The name is filled in, run over and compared with all three literals. The comparisons with zero stand
-- beside one that fails, or inside of a conditional that is left out.
theorem render_insert_blank_guarded :
    let source := "a = #\x7bn\x7d<if test=\x22n != 0 and n != null\x22> and b</if>".toList ++
      ("<foreach item=\x22n\x22>$\x7bn\x7d</foreach><if test=\x22n != \x27\x27\x22>".toList ++
        "<if test=\x22n != 0\x22>c</if></if>".toList)
    let value : Value := .text " \t".toList
    Table.get? "n".toList ([] : Params) = none ∧
      (value = .null ∨ ∃ t, value = .text t ∧ Text.trim t = []) ∧
      (∀ test ∈ Node.testsAll [] (Template.parse source).nodes,
        ¬Condition.HingesOn [] ⟨"n".toList, .zero⟩ test) ∧
      render source [] = "a = ()".toList ∧
      render source [] = render source (Table.insert "n".toList value []) := by
  intro source value
  have hblank : value = .null ∨ ∃ t, value = .text t ∧ Text.trim t = [] :=
    .inr ⟨" \t".toList, rfl, by decide⟩
  have htests : ∀ test ∈ Node.testsAll [] (Template.parse source).nodes,
      ¬Condition.HingesOn [] ⟨"n".toList, .zero⟩ test := by decide +kernel
  exact ⟨rfl, hblank, htests, by decide +kernel,
    (render_insert_blank source [] "n".toList value rfl hblank).2 htests⟩

-- A comparison with zero by itself tells a missing parameter from a blank one.
theorem render_insert_blank_zero :
    let source := "<if test=\x22n != 0\x22>x</if>".toList
    Table.get? "n".toList ([] : Params) = none ∧ render source [] = [] ∧
      render source (Table.insert "n".toList (.text []) []) = ['x'] := by
  decide +kernel

end SqlPreview
