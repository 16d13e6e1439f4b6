import SqlPreview.Text.Blank
import SqlPreview.Text.Mark
import SqlPreview.Text.Word

namespace SqlPreview.Statement

-- Reads an `if` tag of any shape: it ends at the next `>`.
def afterIfTag? : Text → Option Text
  | '<' :: t =>
    let name := match t with
      | '/' :: t => t
      | t => t
    match Text.after? ['i', 'f'] name with
    | some rest =>
      if rest.head?.any Text.isWord then none
      else
        match rest.dropWhile (· != '>') with
        | _ :: behind => some behind
        | [] => none
    | none => none
  | _ => none

theorem length_lt_of_afterIfTag? {t rest : Text} (h : afterIfTag? t = some rest) :
    rest.length < t.length := by
  unfold afterIfTag? at h
  split at h
  · next t =>
    simp only at h
    split at h
    · next name ht =>
      split at h
      · cases h
      · split at h
        · next c behind hb =>
          cases h
          have hl := (List.dropWhile_suffix (· != '>') (l := name)).length_le
          rw [hb] at hl
          have hn := congrArg List.length (Text.after?_eq_some_iff.1 ht)
          simp only [List.length_cons, List.length_append, List.length_nil] at hl hn
          split at hn <;> simp only [List.length_cons] at * <;> omega
        · cases h
    · cases h
  · cases h

def ifTag : Mark Unit :=
  Mark.ofRest afterIfTag? length_lt_of_afterIfTag?

-- Every run of spaces and tabs becomes one space.
def squeezeBlanks : Text → Text
  | [] => []
  | c :: t =>
    if c = ' ' ∨ c = '\t' then
      match squeezeBlanks t with
      | ' ' :: rest => ' ' :: rest
      | rest => ' ' :: rest
    else c :: squeezeBlanks t

-- What follows a line end at the head of a text.
def afterLineEnd? : Text → Option Text
  | '\n' :: t => some t
  | '\r' :: '\n' :: t => some t
  | _ => none

theorem length_lt_of_afterLineEnd? {t rest : Text} (h : afterLineEnd? t = some rest) :
    rest.length < t.length := by
  unfold afterLineEnd? at h
  split at h <;> cases h <;> simp only [List.length_cons] <;> omega

-- What follows all line ends at the head of a text.
def dropLineEnds (t : Text) : Text :=
  match _ : afterLineEnd? t with
  | some rest => dropLineEnds rest
  | none => t
termination_by t.length
decreasing_by exact length_lt_of_afterLineEnd? ‹_›

theorem length_dropLineEnds_le (t : Text) : (dropLineEnds t).length ≤ t.length := by
  induction t using dropLineEnds.induct with
  | case1 t rest h ih =>
    rw [dropLineEnds]
    split
    · next rest' h' =>
      cases h.symm.trans h'
      have := length_lt_of_afterLineEnd? h
      omega
    · exact Nat.le_refl _
  | case2 t h =>
    rw [dropLineEnds]
    split
    · next h' => cases h.symm.trans h'
    · exact Nat.le_refl _

-- What follows two line ends or more.
def afterBlankLines? (t : Text) : Option Text :=
  ((afterLineEnd? t).bind afterLineEnd?).map dropLineEnds

theorem length_lt_of_afterBlankLines? {t rest : Text} (h : afterBlankLines? t = some rest) :
    rest.length < t.length := by
  simp only [afterBlankLines?, Option.map_eq_some_iff, Option.bind_eq_some_iff] at h
  obtain ⟨second, ⟨first, h1, h2⟩, rfl⟩ := h
  have hf := length_lt_of_afterLineEnd? h1
  have hs := length_lt_of_afterLineEnd? h2
  have hd := length_dropLineEnds_le second
  omega

def blankLines : Mark Unit :=
  Mark.ofRest afterBlankLines? length_lt_of_afterBlankLines?

-- The text of a statement as it is shown.
def tidy (t : Text) : Text :=
  Text.trim (blankLines.replace (fun _ => ['\n']) (squeezeBlanks (ifTag.replace (fun _ => []) t)))

end SqlPreview.Statement
