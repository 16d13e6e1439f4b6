import SqlPreview.Block.Condition
import SqlPreview.Proofs.Parameter.Written
import SqlPreview.Proofs.Text.Split

namespace SqlPreview

namespace Literal

theorem ofText?_eq_some_iff {t : Text} {literal : Literal} :
    ofText? t = some literal ↔ t = literal.toText := by
  constructor
  · intro h
    have hfound := List.find?_some h
    exact (eq_of_beq hfound).symm
  · rintro rfl
    cases literal <;> decide

-- A literal stands behind blanks as it is.
theorem trimStart_append_toText {blanks : Text} (h : Text.allBlank blanks) (literal : Literal) :
    Text.trimStart (blanks ++ literal.toText) = literal.toText := by
  refine Text.dropWhile_run (Text.allBlank_iff.mp h) fun c hc => ?_
  cases literal <;> cases hc <;> decide

end Literal

namespace Comparison

-- A comparison with blanks in front of its sign and behind it.
def toText (comparison : Comparison) (before behind : Text) : Text :=
  comparison.name ++ (before ++ ("!=".toList ++ (behind ++ comparison.literal.toText)))

-- The text is the comparison, with blanks around it and around its sign.
def Written (comparison : Comparison) (t : Text) : Prop :=
  Name.isName comparison.name ∧ ∃ before behind, Text.allBlank before ∧ Text.allBlank behind ∧
    Text.trim t = comparison.toText before behind

variable {comparison : Comparison} {t before behind : Text}

theorem trim_toText (h : Name.isName comparison.name) :
    Text.trim (comparison.toText before behind) = comparison.toText before behind := by
  refine Text.trim_eq_self_iff.mpr ⟨fun c hc => ?_, fun c hc => ?_⟩
  · have hne := Name.ne_nil_of_isName h
    rw [toText, List.head?_append_of_ne_nil _ hne] at hc
    exact Name.isBlank_of_isNameChar (Name.isNameChar_of_mem h (List.mem_of_mem_head? hc))
  · have hne : comparison.literal.toText ≠ [] := by cases comparison.literal <;> decide
    simp only [toText, ← List.append_assoc] at hc
    rw [List.getLast?_append_of_ne_nil _ hne] at hc
    revert hc
    cases comparison.literal <;> rintro ⟨⟩ <;> decide

theorem written_of_read? (h : read? t = some comparison) : comparison.Written t := by
  obtain ⟨⟨name, rest⟩, hname, h⟩ := Option.bind_eq_some_iff.mp h
  obtain ⟨behindSign, hsign, h⟩ := Option.bind_eq_some_iff.mp h
  obtain ⟨literal, hliteral, h⟩ := Option.bind_eq_some_iff.mp h
  cases h
  refine ⟨Name.isName_of_split? hname, rest.takeWhile Text.isBlank, behindSign.takeWhile Text.isBlank,
    List.all_takeWhile, List.all_takeWhile, ?_⟩
  have hbefore : rest.takeWhile Text.isBlank ++ ("!=".toList ++ behindSign) = rest := by
    rw [← Text.after?_eq_some_iff.mp hsign, Text.trimStart, List.takeWhile_append_dropWhile]
  have hbehind : behindSign.takeWhile Text.isBlank ++ literal.toText = behindSign := by
    rw [← Literal.ofText?_eq_some_iff.mp hliteral, Text.trimStart, List.takeWhile_append_dropWhile]
  rw [toText, hbehind, hbefore, Name.append_of_split? hname]

theorem read?_of_written (h : comparison.Written t) : read? t = some comparison := by
  obtain ⟨hname, before, behind, hbefore, hbehind, htext⟩ := h
  have hsplit : Name.split? (comparison.toText before behind) =
      some (comparison.name, before ++ ("!=".toList ++ (behind ++ comparison.literal.toText))) := by
    refine Name.split?_append hname fun c hc => ?_
    cases before with
    | nil =>
      cases hc
      decide
    | cons d before =>
      cases hc
      exact Name.isNameChar_of_isBlank (Text.allBlank_iff.mp hbefore c List.mem_cons_self)
  have hsign : Text.trimStart (before ++ ("!=".toList ++ (behind ++ comparison.literal.toText))) =
      "!=".toList ++ (behind ++ comparison.literal.toText) :=
    Text.dropWhile_run (Text.allBlank_iff.mp hbefore) fun c hc => by cases hc; decide
  have hafter : Text.after? "!=".toList ("!=".toList ++ (behind ++ comparison.literal.toText)) =
      some (behind ++ comparison.literal.toText) := Text.after?_eq_some_iff.mpr rfl
  have hliteral : Literal.ofText? comparison.literal.toText = some comparison.literal :=
    Literal.ofText?_eq_some_iff.mpr rfl
  simp only [read?, htext, hsplit, Option.bind_eq_bind, Option.bind_some, hsign, hafter,
    Literal.trimStart_append_toText hbehind, hliteral]
  rfl

theorem read?_eq_some_iff : read? t = some comparison ↔ comparison.Written t :=
  ⟨written_of_read?, read?_of_written⟩

theorem read?_toText (h : Name.isName comparison.name) (hbefore : Text.allBlank before)
    (hbehind : Text.allBlank behind) : read? (comparison.toText before behind) = some comparison :=
  read?_of_written ⟨h, before, behind, hbefore, hbehind, trim_toText h⟩

-- Blanks at the ends of a text do not count.
theorem read?_append_blank (t : Text) {tail : Text} (h : Text.allBlank tail) :
    read? (t ++ tail) = read? t := by
  rw [read?, Text.trim_append_right t h, read?]

theorem read?_blank_append {lead : Text} (h : Text.allBlank lead) (t : Text) :
    read? (lead ++ t) = read? t := by
  rw [read?, Text.trim_append_left h, read?]

end Comparison

end SqlPreview
