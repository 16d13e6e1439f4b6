import Mathlib.Tactic.TFAE
import SqlPreview.Parameter.Assignment
import SqlPreview.Proofs.Block.Condition
import SqlPreview.Proofs.Parameter.Occurrence

namespace SqlPreview

namespace Assignment

variable {input before name : Text} {value : Value}

theorem read_of_not_mem (h : '=' ∉ input) : read input = .error .noEquals := by
  simp only [read, Text.dropWhile_ne_eq_nil_iff.mpr h]

-- The first equals sign parts the name from the value.
theorem read_append_cons (h : '=' ∉ before) (behind : Text) :
    read (before ++ '=' :: behind) =
      if Name.isName (Text.trim before) then .ok (Text.trim before, .text behind)
      else .error (.badName (Text.trim before)) := by
  have hname : ∀ c ∈ before, (c != '=') = true := fun c hc => Text.ne_of_not_mem h hc
  have hsign : ∀ c ∈ ('=' :: behind).head?, (c != '=') = false := by
    rintro c ⟨⟩
    decide
  simp only [read, Text.takeWhile_run hname hsign, Text.dropWhile_run hname hsign]

theorem isName_of_read (h : read input = .ok (name, value)) : Name.isName name := by
  simp only [read] at h
  split at h
  · cases h
  · split at h
    · cases h
      assumption
    · cases h

-- Reading fails without an equals sign, and with one if what stands before the first is no name.
theorem exists_fault_iff :
    (∃ fault, read input = .error fault) ↔
      '=' ∉ input ∨ ∃ before behind, input = before ++ '=' :: behind ∧ '=' ∉ before ∧
        ¬Name.isName (Text.trim before) := by
  constructor
  · rintro ⟨fault, hread⟩
    refine or_iff_not_imp_left.mpr fun hm => ?_
    obtain ⟨before, behind, rfl, hbefore⟩ := List.eq_append_cons_of_mem (not_not.mp hm)
    refine ⟨before, behind, rfl, hbefore, fun hname => ?_⟩
    rw [read_append_cons hbefore, if_pos hname] at hread
    cases hread
  · rintro (hm | ⟨before, behind, rfl, hbefore, hname⟩)
    · exact ⟨.noEquals, read_of_not_mem hm⟩
    · exact ⟨.badName (Text.trim before), by rw [read_append_cons hbefore, if_neg hname]⟩

end Assignment

namespace Name

variable {name : Text}

theorem read_assignment (h : isName name) (value : Text) :
    Assignment.read (name ++ '=' :: value) = .ok (name, .text value) := by
  have hsign : '=' ∉ name := fun hm => absurd (isNameChar_of_mem h hm) (by decide)
  have htrim : Text.trim name = name :=
    Text.trim_eq_self fun c hc => isBlank_of_isNameChar (isNameChar_of_mem h hc)
  rw [Assignment.read_append_cons hsign, htrim, if_pos h]

theorem names_toText_iff (form : Form) :
    Placeholder.names (Placeholder.toText ⟨form, name⟩) = [name] ↔ isName name := by
  constructor
  · intro h
    have hm : name ∈ Placeholder.names (Placeholder.toText ⟨form, name⟩) := by simp [h]
    obtain ⟨p, hp, rfl⟩ := Placeholder.mem_names.mp hm
    exact Placeholder.isName_of_mem_all hp
  · exact fun h => Placeholder.names_toText h

-- There is one grammar of names: what counts as a name is read back from a placeholder of either form,
-- from a comparison and from an assignment, and nothing else is. An assignment fails for no other reason
-- than that it has no equals sign, or that what stands before the first one is no name.
theorem isName_tfae :
    (∀ (form : Form) (name value : Text), List.TFAE [isName name,
        Placeholder.names (Placeholder.toText ⟨form, name⟩) = [name],
        Comparison.read? (name ++ " != null".toList) = some ⟨name, .null⟩,
        Assignment.read (name ++ '=' :: value) = .ok (name, .text value)]) ∧
      ∀ input, (∃ fault, Assignment.read input = .error fault) ↔
        '=' ∉ input ∨ ∃ before behind, input = before ++ '=' :: behind ∧ '=' ∉ before ∧
          ¬isName (Text.trim before) := by
  refine ⟨fun form name value => ?_, fun input => Assignment.exists_fault_iff⟩
  tfae_have 1 ↔ 2 := (names_toText_iff form).symm
  tfae_have 1 → 3 := Condition.read?_given
  tfae_have 3 → 1 := fun h => (Comparison.written_of_read? h).1
  tfae_have 1 → 4 := fun h => read_assignment h value
  tfae_have 4 → 1 := Assignment.isName_of_read
  tfae_finish

end Name

end SqlPreview
