import SqlPreview.Proofs.Template.Markup

namespace SqlPreview.Loop

-- An attribute as a tag may write it, with blanks in front of it and on both sides of its equals sign.
structure Spelling extends Attribute where
  lead : Text
  left : Text
  right : Text
  name_ne_nil : name ≠ []
  all_isWord : name.all Text.isWord
  quote_not_mem : '"' ∉ value
  allBlank_lead : Text.allBlank lead
  allBlank_left : Text.allBlank left
  allBlank_right : Text.allBlank right

namespace Spelling

-- What stands behind the name, and in front of what follows the attribute.
def behindName (spelling : Spelling) (rest : Text) : Text :=
  spelling.left ++ '=' :: (spelling.right ++ '"' :: (spelling.value ++ '"' :: rest))

def toText (spelling : Spelling) : Text :=
  spelling.lead ++ (spelling.name ++ spelling.behindName [])

theorem toText_append (spelling : Spelling) (rest : Text) :
    spelling.toText ++ rest = spelling.lead ++ (spelling.name ++ spelling.behindName rest) := by
  simp [toText, behindName]

-- The name ends where it should.
theorem isWord_head?_behindName (spelling : Spelling) (rest : Text) :
    ∀ c ∈ (spelling.behindName rest).head?, Text.isWord c = false := by
  intro c hc
  rw [behindName] at hc
  cases hleft : spelling.left with
  | nil =>
    rw [hleft] at hc
    cases hc
    decide
  | cons d left =>
    rw [hleft] at hc
    cases hc
    have hd : c ∈ spelling.left := by simp [hleft]
    exact Text.isWord_of_allBlank spelling.allBlank_left c hd

-- So does the value, which may hold anything but a quote.
theorem read?_append (spelling : Spelling) (rest : Text) :
    Attribute.read? (spelling.name ++ spelling.behindName rest) =
      some (spelling.toAttribute, rest) := by
  have hword : ∀ c ∈ spelling.name, Text.isWord c := List.all_eq_true.mp spelling.all_isWord
  have hbehind := spelling.isWord_head?_behindName rest
  have hequals : Text.trimStart (spelling.behindName rest) =
      '=' :: (spelling.right ++ '"' :: (spelling.value ++ '"' :: rest)) :=
    Text.dropWhile_run (Text.allBlank_iff.mp spelling.allBlank_left) (by simp; decide)
  have hquote : Text.trimStart (spelling.right ++ '"' :: (spelling.value ++ '"' :: rest)) =
      '"' :: (spelling.value ++ '"' :: rest) :=
    Text.dropWhile_run (Text.allBlank_iff.mp spelling.allBlank_right) (by simp; decide)
  have hvalue : ∀ c ∈ spelling.value, (c != '"') = true := fun c hc =>
    Text.ne_of_not_mem spelling.quote_not_mem hc
  rw [Attribute.read?, Text.takeWhile_run hword hbehind, Text.dropWhile_run hword hbehind,
    if_neg spelling.name_ne_nil, hequals]
  simp only [hquote, Text.takeWhile_run hvalue (t := '"' :: rest) (by simp),
    Text.dropWhile_run hvalue (t := '"' :: rest) (by simp)]

end Spelling

theorem Attribute.all_append_of_allBlank {blanks : Text} (h : Text.allBlank blanks) (t : Text) :
    Attribute.mark.all (blanks ++ t) = Attribute.mark.all t := by
  rw [← Attribute.all_dropWhile_isBlank, List.dropWhile_append_of_pos (Text.allBlank_iff.mp h),
    Attribute.all_dropWhile_isBlank]

-- A row of attributes is read back.
theorem all_spelled (row : List Spelling) {tail : Text} (htail : Text.allBlank tail) :
    Attribute.mark.all (row.flatMap Spelling.toText ++ tail) = row.map Spelling.toAttribute := by
  induction row with
  | nil =>
    have hnone := Attribute.all_append_of_allBlank htail []
    rwa [List.append_nil, Mark.all_nil] at hnone
  | cons spelling row ih =>
    rw [List.flatMap_cons, List.append_assoc, spelling.toText_append,
      Attribute.all_append_of_allBlank spelling.allBlank_lead,
      Mark.all_of_read? (spelling.read?_append _), ih, List.map_cons]

-- The first attribute of a name has a value.
def First (attributes : List Attribute) (name value : Text) : Prop :=
  ∃ before after, attributes = before ++ ⟨name, value⟩ :: after ∧ ∀ a ∈ before, a.name ≠ name

-- There is no attribute of a name.
def Lacks (attributes : List Attribute) (name : Text) : Prop :=
  ∀ a ∈ attributes, a.name ≠ name

-- The texts that a loop writes around its fragments.
inductive Frame where
  | opening
  | separator
  | closing

namespace Frame

def name : Frame → Text
  | opening => "open".toList
  | separator => "separator".toList
  | closing => "close".toList

def default : Frame → Text
  | opening => "(".toList
  | separator => ",".toList
  | closing => ")".toList

def of : Frame → Header → Text
  | opening => Header.opening
  | separator => Header.separator
  | closing => Header.closing

end Frame

-- The names that a loop knows.
def knownNames : List Text :=
  ["item".toList, Frame.opening.name, Frame.separator.name, Frame.closing.name]

namespace Header

variable {attributes : List Attribute} {name value : Text}

theorem first?_of_first (h : First attributes name value) : first? name attributes = some value := by
  obtain ⟨before, after, rfl, hbefore⟩ := h
  have hnone : before.find? (·.name == name) = none :=
    List.find?_eq_none.mpr fun a ha => by simpa using hbefore a ha
  rw [first?, List.find?_append, hnone, Option.none_or, List.find?_cons_of_pos (by simp)]
  rfl

theorem first?_of_lacks (h : Lacks attributes name) : first? name attributes = none := by
  rw [first?, List.find?_eq_none.mpr fun a ha => by simpa using h a ha, Option.map_none]

theorem of_ofAttributes (frame : Frame) (attributes : List Attribute) :
    frame.of (ofAttributes attributes) = (first? frame.name attributes).getD frame.default := by
  cases frame <;> rfl

theorem first?_filter {named : Attribute → Bool} (h : ∀ a, a.name = name → named a)
    (attributes : List Attribute) :
    first? name (attributes.filter named) = first? name attributes := by
  have hboth : ∀ a : Attribute, (named a && a.name == name) = (a.name == name) := by
    intro a
    cases hname : a.name == name with
    | false => exact Bool.and_false _
    | true => rw [h a (eq_of_beq hname), Bool.true_and]
  rw [first?, List.find?_filter, first?]
  simp only [Bool.decide_and, Bool.decide_eq_true, hboth]

-- A header tells nothing but the attributes whose names a loop knows.
theorem ofAttributes_filter (attributes : List Attribute) :
    ofAttributes (attributes.filter fun a => knownNames.contains a.name) = ofAttributes attributes := by
  have hfirst : ∀ name ∈ knownNames, first? name (attributes.filter fun a => knownNames.contains a.name) =
      first? name attributes := fun name hname =>
    first?_filter (fun a ha => by simpa [ha] using hname) attributes
  rw [ofAttributes, hfirst "item".toList (by decide), hfirst "open".toList (by decide),
    hfirst "separator".toList (by decide), hfirst "close".toList (by decide), ofAttributes]

-- Attributes are read back from what they are written to. The item is the value of the first attribute
-- of this name, if that is not empty, whatever the later ones say; each text of the frame is the value of
-- the first attribute of its name, or what it is by default. Attributes of other names change nothing.
theorem read_spelled (row : List Spelling) (tail : Text) (htail : Text.allBlank tail) :
    let attributes := row.map Spelling.toAttribute
    let header := read (row.flatMap Spelling.toText ++ tail)
    (∀ value, First attributes "item".toList value →
        header.item = if value = [] then none else some value) ∧
      (Lacks attributes "item".toList → header.item = none) ∧
      (∀ frame : Frame, (∀ value, First attributes frame.name value → frame.of header = value) ∧
        (Lacks attributes frame.name → frame.of header = frame.default)) ∧
      ∀ (row' : List Spelling) (tail' : Text), Text.allBlank tail' →
        ((row'.map Spelling.toAttribute).filter fun a => knownNames.contains a.name) =
            attributes.filter (fun a => knownNames.contains a.name) →
          read (row'.flatMap Spelling.toText ++ tail') = header := by
  intro attributes header
  have hread : header = ofAttributes attributes := congrArg ofAttributes (all_spelled row htail)
  refine ⟨fun value h => ?_, fun h => ?_, fun frame => ⟨fun value h => ?_, fun h => ?_⟩,
    fun row' tail' htail' hnamed => ?_⟩
  · rw [hread, ofAttributes, first?_of_first h]
    by_cases hv : value = [] <;> simp [hv]
  · rw [hread, ofAttributes, first?_of_lacks h]
    rfl
  · rw [hread, of_ofAttributes, first?_of_first h, Option.getD_some]
  · rw [hread, of_ofAttributes, first?_of_lacks h, Option.getD_none]
  · rw [hread, read, all_spelled row' htail', ← ofAttributes_filter, hnamed, ofAttributes_filter]

-- The first item is empty, so there is none although a second one follows. A value may look like
-- attributes, and an attribute of another name may be left out.
theorem read_spelled_twice :
    let list : Spelling := ⟨⟨"collection".toList, "item=a open = b".toList⟩, [], " ".toList, [],
      by decide, by decide, by decide, by decide, by decide, by decide⟩
    let first : Spelling := ⟨⟨"item".toList, []⟩, "\n".toList, [], "\t".toList,
      by decide, by decide, by decide, by decide, by decide, by decide⟩
    let close : Spelling := ⟨⟨"close".toList, "]".toList⟩, " ".toList, [], [],
      by decide, by decide, by decide, by decide, by decide, by decide⟩
    let second : Spelling := ⟨⟨"item".toList, "u".toList⟩, " ".toList, [], [],
      by decide, by decide, by decide, by decide, by decide, by decide⟩
    let row := [list, first, close, second]
    let header := read (row.flatMap Spelling.toText ++ " ".toList)
    row.flatMap Spelling.toText ++ " ".toList =
        "collection =\x22item=a open = b\x22\nitem=\t\x22\x22 close=\x22]\x22 item=\x22u\x22 ".toList ∧
      Text.allBlank " ".toList ∧ header.item = none ∧ header.opening = "(".toList ∧
      header.closing = "]".toList ∧
      read ([first, close, second].flatMap Spelling.toText ++ []) = header := by
  intro list first close second row header
  have htail : Text.allBlank " ".toList := by decide
  obtain ⟨hitem, -, hframe, hother⟩ := read_spelled row " ".toList htail
  have hfirst : First (row.map Spelling.toAttribute) "item".toList [] :=
    ⟨[list.toAttribute], [close.toAttribute, second.toAttribute], rfl, by decide⟩
  have hopen : Lacks (row.map Spelling.toAttribute) Frame.opening.name := by
    unfold Lacks
    decide
  have hclose : First (row.map Spelling.toAttribute) Frame.closing.name "]".toList :=
    ⟨[list.toAttribute, first.toAttribute], [second.toAttribute], rfl, by decide⟩
  exact ⟨by decide, htail, hitem [] hfirst, (hframe .opening).2 hopen,
    (hframe .closing).1 "]".toList hclose, hother _ [] (by decide) (by decide)⟩

end Header

end SqlPreview.Loop
