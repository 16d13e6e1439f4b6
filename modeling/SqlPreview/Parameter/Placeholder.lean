import SqlPreview.Parameter.Name
import SqlPreview.Text.Mark
import SqlPreview.Parameter.Value

namespace SqlPreview

inductive Form where
  | quoted
  | plain
deriving DecidableEq, Repr

-- Does a text write a number: an optional minus sign, digits, and then nothing, or a point and
-- more digits? All of them are ASCII.
def isNumeral (t : Text) : Bool :=
  let size := match t with
    | '-' :: t => t
    | t => t
  size.takeWhile Char.isDigit != [] &&
    match size.dropWhile Char.isDigit with
    | [] => true
    | '.' :: fraction => fraction != [] && fraction.all Char.isDigit
    | _ => false

namespace Form

def sigil : Form → Char
  | quoted => '#'
  | plain => '$'

def ofSigil? : Char → Option Form
  | '#' => some quoted
  | '$' => some plain
  | _ => none

theorem sigil_of_ofSigil? {c : Char} {form : Form} (h : ofSigil? c = some form) :
    form.sigil = c := by
  unfold ofSigil? at h
  split at h <;> cases h <;> rfl

-- The text that stands for a value: quoted unless it writes a number, or as it is.
def write (form : Form) (t : Text) : Text :=
  match form with
  | quoted => if isNumeral t then t else '\x27' :: t ++ ['\x27']
  | plain => t

end Form

structure Placeholder where
  form : Form
  name : Text
deriving DecidableEq, Repr

namespace Placeholder

def toText (p : Placeholder) : Text :=
  p.form.sigil :: '{' :: p.name ++ ['}']

def read? : Text → Option (Placeholder × Text)
  | sigil :: '{' :: t =>
    match Form.ofSigil? sigil, Name.split? t with
    | some form, some (name, '}' :: rest) => some (⟨form, name⟩, rest)
    | _, _ => none
  | _ => none

theorem append_of_read? {t rest : Text} {p : Placeholder} (h : read? t = some (p, rest)) :
    p.toText ++ rest = t := by
  unfold read? at h
  split at h
  · next sigil t =>
    split at h
    · next form name rest' hf hn =>
      cases h
      simp [toText, Form.sigil_of_ofSigil? hf, ← Name.append_of_split? hn]
    · cases h
  · cases h

def mark : Mark Placeholder where
  read? := read?
  length_lt := by
    intro t p rest h
    rw [← append_of_read? h]
    simp only [toText, List.cons_append, List.length_cons, List.length_append]
    omega

-- The names of the placeholders in a text, each one once, in the order of their first places.
def names (t : Text) : List Text :=
  ((mark.all t).map name).eraseDups

-- What a placeholder is filled with. A value that is missing or blank leaves nothing.
def fill (params : Params) (p : Placeholder) : Text :=
  match params.get? p.name with
  | some value => if value.isBlank then [] else p.form.write value.toText
  | none => []

-- Fills every placeholder in one scan, so that a value is never searched for placeholders.
def fillAll (params : Params) (t : Text) : Text :=
  mark.replace (fill params) t

-- The character that keeps the sigil and the brace of a shielded value apart. It is of private use.
def shieldChar : Char := '\ue000'

-- A text in which no placeholder is found, for values that a loop has filled in.
def shield : Text → Text
  | [] => []
  | '#' :: '{' :: t => '#' :: shieldChar :: '{' :: shield t
  | '$' :: '{' :: t => '$' :: shieldChar :: '{' :: shield t
  | c :: t => c :: shield t

def unshield (t : Text) : Text :=
  t.filter (· != shieldChar)

-- The value that a loop element gives to a name: the element itself, or a field of it.
def bound? (item : Text) (element : Value) (name : Text) : Option Value :=
  if name = item then some element
  else (Text.after? (item ++ ['.']) name).bind fun field => element.field? field

-- A placeholder within a loop body. The element comes first. Without `outer` all other names are
-- left alone; with it they are filled at once, and whatever is filled in is shielded.
def bind (item : Text) (element : Value) (outer : Option Params) (p : Placeholder) : Text :=
  match bound? item element p.name, outer with
  | some value, none => p.form.write value.toText
  | some value, some _ => shield (p.form.write value.toText)
  | none, none => p.toText
  | none, some params => shield (fill params p)

def bindElement (item : Text) (element : Value) (outer : Option Params) (body : Text) : Text :=
  mark.replace (bind item element outer) body

end Placeholder

end SqlPreview
