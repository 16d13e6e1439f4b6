import SqlPreview.Proofs.Parameter.Characters

namespace SqlPreview

namespace Name

theorem isNameChar_of_mem {name : Text} {c : Char} (h : isName name) (hc : c ∈ name) :
    isNameChar c := by
  have hsplit : ['.'].intercalate (name.splitOn '.') = name := List.intercalate_splitOn '.'
  rw [← hsplit] at hc
  rcases Text.mem_of_mem_intercalate hc with hc | ⟨segment, hs, hc⟩
  · rw [List.mem_singleton] at hc
    subst hc
    decide
  · have hsegment := List.all_eq_true.mp h segment hs
    rw [Bool.and_eq_true] at hsegment
    rw [isNameChar, List.all_eq_true.mp hsegment.2 c hc, Bool.true_or]

theorem isBlank_of_isNameChar {c : Char} (h : isNameChar c) : Text.isBlank c = false := by
  cases hb : Text.isBlank c with
  | false => rfl
  | true =>
    rw [isNameChar, Text.isWord_of_isBlank hb, Bool.false_or, beq_iff_eq] at h
    subst h
    exact absurd hb (by decide)

theorem isNameChar_of_isBlank {c : Char} (h : Text.isBlank c) : isNameChar c = false := by
  rw [Bool.eq_false_iff]
  intro hc
  rw [isBlank_of_isNameChar hc] at h
  cases h

theorem ne_nil_of_isName {name : Text} (h : isName name) : name ≠ [] := by
  rintro rfl
  revert h
  decide

theorem isName_of_split? {t name rest : Text} (h : split? t = some (name, rest)) : isName name := by
  simp only [split?] at h
  split at h
  · cases h
    assumption
  · cases h

-- A name in front of something that does not go on with it is split off whole.
theorem split?_append {name rest : Text} (h : isName name)
    (hr : ∀ c ∈ rest.head?, isNameChar c = false) : split? (name ++ rest) = some (name, rest) := by
  have hchars : ∀ c ∈ name, isNameChar c := fun c hc => isNameChar_of_mem h hc
  rw [split?, Text.takeWhile_run hchars hr, Text.dropWhile_run hchars hr, if_pos h]

end Name

namespace Placeholder

theorem read?_toText_append {p : Placeholder} (h : Name.isName p.name) (rest : Text) :
    read? (p.toText ++ rest) = some (p, rest) := by
  have hbrace : ∀ c ∈ ('}' :: rest).head?, Name.isNameChar c = false := by
    rintro c ⟨⟩
    decide
  have hform : Form.ofSigil? p.form.sigil = some p.form := by cases p.form <;> rfl
  simp only [toText, List.cons_append, List.append_assoc, List.nil_append, read?, hform,
    Name.split?_append h hbrace]

theorem read?_eq_none {c : Char} (h : Form.ofSigil? c = none) (t : Text) : read? (c :: t) = none := by
  unfold read?
  split
  · next heq =>
    cases heq
    rw [h]
  · rfl

theorem isBlank_of_mem_toText {p : Placeholder} {c : Char} (h : Name.isName p.name)
    (hc : c ∈ p.toText) : Text.isBlank c = false := by
  simp only [toText, List.mem_cons, List.mem_append, List.not_mem_nil, or_false] at hc
  rcases hc with (rfl | rfl | hc) | rfl
  · cases p.form <;> decide
  · decide
  · exact Name.isBlank_of_isNameChar (Name.isNameChar_of_mem h hc)
  · decide

-- The text of a body, given by its pieces.
def written (body : List (Piece Placeholder)) : Text :=
  body.flatMap (Piece.write toText)

-- A piece that is found where it was written: no sigil, or a placeholder with a valid name.
def Findable : Piece Placeholder → Prop
  | .char c => Form.ofSigil? c = none
  | .mark p => Name.isName p.name

theorem scan_written_append {body : List (Piece Placeholder)} (h : ∀ piece ∈ body, Findable piece)
    (rest : Text) : mark.scan (written body ++ rest) = body ++ mark.scan rest := by
  induction body with
  | nil => rfl
  | cons piece body ih =>
    rw [List.forall_mem_cons] at h
    rw [written, List.flatMap_cons, List.append_assoc, List.cons_append, ← ih h.2]
    cases piece with
    | char c => exact Mark.scan_cons mark (read?_eq_none h.1 _)
    | mark p => exact Mark.scan_of_read? mark (read?_toText_append h.1 _)

-- Replacing the placeholders of a body replaces its pieces.
theorem replace_written {body : List (Piece Placeholder)} (h : ∀ piece ∈ body, Findable piece)
    (write : Placeholder → Text) :
    mark.replace write (written body) = body.flatMap (Piece.write write) := by
  have hscan := scan_written_append h []
  rw [List.append_nil, Mark.scan_nil, List.append_nil] at hscan
  rw [Mark.replace, hscan]

-- No placeholder begins in a text without a sigil.
theorem replace_append_of_no_sigil {s : Text} (h : ∀ c ∈ s, Form.ofSigil? c = none)
    (write : Placeholder → Text) (t : Text) : mark.replace write (s ++ t) = s ++ mark.replace write t :=
  Mark.replace_append_of_no_mark write fun c _ hu =>
    read?_eq_none (h c (hu.subset List.mem_cons_self)) _

theorem replace_eq_self_of_no_sigil {t : Text} (h : ∀ c ∈ t, Form.ofSigil? c = none)
    (write : Placeholder → Text) : mark.replace write t = t := by
  have happend := replace_append_of_no_sigil h write []
  rwa [List.append_nil, Mark.replace_nil, List.append_nil] at happend

end Placeholder

end SqlPreview
