import SqlPreview.Parameter.Placeholder
import SqlPreview.Text.Mark

namespace SqlPreview.Loop

-- An attribute as it is written: `name="value"`.
structure Attribute where
  name : Text
  value : Text
deriving DecidableEq, Repr

namespace Attribute

-- Reads an attribute at the head of a text. Blanks may surround its equals sign.
def read? (t : Text) : Option (Attribute × Text) :=
  let name := t.takeWhile Text.isWord
  if name = [] then none
  else
    match Text.trimStart (t.dropWhile Text.isWord) with
    | '=' :: rest =>
      match Text.trimStart rest with
      | '"' :: rest =>
        match rest.dropWhile (· != '"') with
        | _ :: behind => some (⟨name, rest.takeWhile (· != '"')⟩, behind)
        | [] => none
      | _ => none
    | _ => none

theorem length_dropWhile_le (p : Char → Bool) (t : Text) : (t.dropWhile p).length ≤ t.length :=
  (List.dropWhile_suffix p).length_le

theorem length_lt_of_read? {t rest : Text} {a : Attribute} (h : read? t = some (a, rest)) :
    rest.length < t.length := by
  simp only [read?] at h
  split at h
  · cases h
  · split at h
    · next behindName hn =>
      split at h
      · next quoted hq =>
        split at h
        · next behind hb =>
          cases h
          have h1 := length_dropWhile_le Text.isWord t
          have h2 := length_dropWhile_le Text.isBlank (t.dropWhile Text.isWord)
          have h3 := length_dropWhile_le Text.isBlank behindName
          have h4 := length_dropWhile_le (· != '"') quoted
          simp only [Text.trimStart] at hn hq
          rw [hn] at h2
          rw [hq] at h3
          rw [hb] at h4
          simp only [List.length_cons] at h2 h3 h4
          omega
        · cases h
      · cases h
    · cases h

def mark : Mark Attribute where
  read? := read?
  length_lt := length_lt_of_read?

end Attribute

-- What the tag of a loop says: the name of the element, and the texts before, between and behind
-- the elements. A loop without an item cannot be unrolled.
structure Header where
  item : Option Text
  opening : Text
  separator : Text
  closing : Text
deriving DecidableEq, Repr

namespace Header

def first? (name : Text) (attributes : List Attribute) : Option Text :=
  (attributes.find? (·.name == name)).map (·.value)

-- Of several attributes with one name the first counts, even where its value is of no use.
def ofAttributes (attributes : List Attribute) : Header where
  item := (first? "item".toList attributes).filter (· != [])
  opening := (first? "open".toList attributes).getD ['(']
  separator := (first? "separator".toList attributes).getD [',']
  closing := (first? "close".toList attributes).getD [')']

-- Reads what stands between the name of the tag and its end.
def read (t : Text) : Header :=
  ofAttributes (Attribute.mark.all t)

end Header

-- The elements of a text: what its commas separate, without the blanks around. Empty elements at
-- the end do not count.
def textElements (t : Text) : List Value :=
  let t := Text.trim t
  if t = [] then []
  else if t.contains ',' then
    (((t.splitOn ',').map Text.trim).reverse.dropWhile (· == [])).reverse.map .text
  else [.text t]

def elements : Option Value → List Value
  | none => []
  | some .null => []
  | some (.list items) => items
  | some (.text t) => textElements t
  | some value => [value]

-- An element as it is bound: records keep their fields, all else is its trimmed text.
def boundForm : Value → Value
  | .record fields => .record fields
  | value => .text (Text.trim value.toText)

-- The body once for every element, each time trimmed.
def fragments (item body : Text) (elements : List Value) (outer : Option Params) : List Text :=
  elements.map fun element =>
    Text.trim (Placeholder.bindElement item (boundForm element) outer body)

-- The fragments with what goes before, between and behind them. Without any element the two outer
-- texts remain.
def unroll (header : Header) (item body : Text) (elements : List Value) (outer : Option Params) :
    Text :=
  header.opening ++ header.separator.intercalate (fragments item body elements outer) ++
    header.closing

end SqlPreview.Loop
