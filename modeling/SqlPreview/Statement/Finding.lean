import SqlPreview.Statement.Kind
import SqlPreview.Text.Word

namespace SqlPreview.Statement

inductive Severity where
  | info
  | warning
  | error
deriving DecidableEq, Repr

def Severity.name : Severity → Text
  | info => "info".toList
  | warning => "warning".toList
  | error => "error".toList

inductive Finding where
  | empty
  | deleteAll
  | updateAll
  | truncates
  | dropsTable
  | markupLeft (tag : Text)
deriving DecidableEq, Repr

namespace Finding

def severity : Finding → Severity
  | empty => .info
  | deleteAll | updateAll => .error
  | truncates | dropsTable | markupLeft _ => .warning

def code : Finding → Text
  | empty => "I002".toList
  | deleteAll => "E002".toList
  | updateAll => "E003".toList
  | truncates => "W001".toList
  | dropsTable => "W002".toList
  | markupLeft _ => "W004".toList

def message : Finding → Text
  | empty => "rendered SQL is empty".toList
  | deleteAll => "DELETE without WHERE clause will delete all rows".toList
  | updateAll => "UPDATE without WHERE clause will update all rows".toList
  | truncates => "TRUNCATE will delete all rows".toList
  | dropsTable => "DROP TABLE is irreversible".toList
  | markupLeft tag => "unprocessed markup ".toList ++ tag ++ " left in SQL".toList

def line (finding : Finding) : Text :=
  finding.severity.name ++ '[' :: finding.code ++ "]: ".toList ++ finding.message

end Finding

def tagNames : List Text :=
  ["foreach".toList, "set".toList, "where".toList]

-- Reads what stands between the name of a tag and behind its end: nothing but `>`, or a blank and
-- then anything up to the next `>`.
def splitTagEnd? : Text → Option (Text × Text)
  | '>' :: rest => some (['>'], rest)
  | c :: t =>
    if Text.isBlank c then
      match t.dropWhile (· != '>') with
      | _ :: rest => some (c :: t.takeWhile (· != '>') ++ ['>'], rest)
      | [] => none
    else none
  | [] => none

-- Reads a tag after its opening bracket and slash.
def splitTagBody? (name t : Text) : Option (Text × Text) := do
  let (written, rest) ← Text.splitWord? name t
  let (close, rest) ← splitTagEnd? rest
  return (written ++ close, rest)

-- Reads an opening or closing tag in any case.
def readTag? : Text → Option (Text × Text)
  | '<' :: '/' :: t => do
    let (body, rest) ← tagNames.findSome? (splitTagBody? · t)
    return ('<' :: '/' :: body, rest)
  | '<' :: t => do
    let (body, rest) ← tagNames.findSome? (splitTagBody? · t)
    return ('<' :: body, rest)
  | _ => none

theorem append_of_splitTagEnd? {t close rest : Text} (h : splitTagEnd? t = some (close, rest)) :
    close ++ rest = t := by
  unfold splitTagEnd? at h
  split at h
  · cases h
    rfl
  · next c t _ =>
    split at h
    · split at h
      · next d rest' hd =>
        cases h
        have hp : (d != '>') = false := by
          have := List.head?_dropWhile_not (· != '>') t
          simpa [hd] using this
        have hq : d = '>' := by simpa using hp
        subst hq
        have ha := List.takeWhile_append_dropWhile (p := (· != '>')) (l := t)
        rw [hd] at ha
        simp [ha]
      · cases h
    · cases h
  · cases h

theorem append_of_splitTagBody? {name t body rest : Text}
    (h : splitTagBody? name t = some (body, rest)) : body ++ rest = t := by
  simp only [splitTagBody?, Option.bind_eq_bind, Option.bind_eq_some_iff, Prod.exists] at h
  obtain ⟨written, behind, hw, close, rest', hc, he⟩ := h
  cases he
  rw [List.append_assoc, append_of_splitTagEnd? hc, Text.append_of_splitWord? hw]

theorem append_of_readTag? {t tag rest : Text} (h : readTag? t = some (tag, rest)) :
    tag ++ rest = t ∧ tag ≠ [] := by
  unfold readTag? at h
  split at h
  · simp only [Option.bind_eq_bind, Option.bind_eq_some_iff, Prod.exists,
      List.findSome?_eq_some_iff] at h
    obtain ⟨body, rest', ⟨_, name, _, _, hb, _⟩, he⟩ := h
    cases he
    simp [append_of_splitTagBody? hb]
  · simp only [Option.bind_eq_bind, Option.bind_eq_some_iff, Prod.exists,
      List.findSome?_eq_some_iff] at h
    obtain ⟨body, rest', ⟨_, name, _, _, hb, _⟩, he⟩ := h
    cases he
    simp [append_of_splitTagBody? hb]
  · cases h

def tagMark : Mark Text where
  read? := readTag?
  length_lt := by
    intro t tag rest h
    obtain ⟨ha, hn⟩ := append_of_readTag? h
    rw [← ha, List.length_append]
    have := List.length_pos_iff.2 hn
    omega

-- What the kind of a statement asks for. `filtered` tells whether it holds the word `where`.
def kindFindings (filtered : Bool) : Kind → List Finding
  | .delete => if filtered then [] else [.deleteAll]
  | .update => if filtered then [] else [.updateAll]
  | .truncate => [.truncates]
  | .dropTable => [.dropsTable]
  | _ => []

-- The findings for a statement. Of the tags left in it the first one is reported.
def findings (sql : Text) : List Finding :=
  match kind? sql with
  | none => [.empty]
  | some kind =>
    kindFindings (Text.hasWord "where".toList sql) kind ++
      ((tagMark.all sql).head?.map Finding.markupLeft).toList

-- Errors count as warnings too.
def Finding.isWarning (finding : Finding) : Bool :=
  finding.severity != .info

def Finding.isError (finding : Finding) : Bool :=
  finding.severity == .error

end SqlPreview.Statement
