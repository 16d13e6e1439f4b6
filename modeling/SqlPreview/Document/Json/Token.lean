import SqlPreview.Document.Json.Numeral
import SqlPreview.Document.Json.Quoted
import SqlPreview.Text.Mark

namespace SqlPreview.Json

inductive Token where
  | openList
  | closeList
  | openRecord
  | closeRecord
  | comma
  | colon
  | text (t : Text)
  | scalar (value : Value)

def words : List (Text × Value) :=
  [("null".toList, .null), ("true".toList, .bool true), ("false".toList, .bool false)]

def readWord? (t : Text) : Option (Value × Text) :=
  words.findSome? fun (word, value) => (Text.after? word t).map fun rest => (value, rest)

-- The characters that are tokens by themselves.
def signs : List (Char × Token) :=
  [('[', .openList), (']', .closeList), ('\x7b', .openRecord), ('\x7d', .closeRecord), (',', .comma),
    (':', .colon)]

def readToken? : Text → Option (Token × Text)
  | [] => none
  | c :: t =>
    match signs.lookup c with
    | some sign => some (sign, t)
    | none =>
      if c = '"' then (readText? t).map fun (t, rest) => (.text t, rest)
      else
        ((readWord? (c :: t)).or (readNumber? (c :: t))).map fun (value, rest) =>
          (.scalar value, rest)

theorem shortens_readWord? (t : Text) : Text.Shortens t (readWord? t) := by
  have hwords : ∀ entry ∈ words, 0 < entry.1.length := by decide
  intro pair hp
  obtain ⟨entry, he, hp⟩ := List.exists_of_findSome?_eq_some hp
  obtain ⟨rest, hr, rfl⟩ := Option.map_eq_some_iff.1 hp
  have hpos := hwords entry he
  rw [Text.after?_eq_some_iff.1 hr, List.length_append]
  exact Nat.lt_add_of_pos_left hpos

theorem shortens_readToken? (t : Text) : Text.Shortens t (readToken? t) := by
  cases t with
  | nil => exact Text.shortens_none _
  | cons c t =>
    rw [readToken?]
    split
    · exact Text.shortens_some (Nat.lt_succ_self _)
    · split
      · exact ((shortens_readText? t).cons c).map _
      · exact ((shortens_readWord? _).or (shortens_readNumber? _)).map _

def token : Mark Token where
  read? := readToken?
  length_lt := (shortens_readToken? _).length_lt

end SqlPreview.Json
