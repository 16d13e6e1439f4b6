import SqlPreview.Text.Word

namespace SqlPreview.Name

def isNameChar (c : Char) : Bool :=
  Text.isWord c || c == '.'

-- A name is one word or several, with a point between neighbours.
def isName (t : Text) : Bool :=
  (t.splitOn '.').all fun segment => segment != [] && segment.all Text.isWord

-- Splits a name off the front of a text. It ends where no word and no point goes on.
def split? (t : Text) : Option (Text × Text) :=
  if isName (t.takeWhile isNameChar) then some (t.takeWhile isNameChar, t.dropWhile isNameChar)
  else none

theorem append_of_split? {t name rest : Text} (h : split? t = some (name, rest)) :
    name ++ rest = t := by
  simp only [split?] at h
  split at h
  · cases h
    exact List.takeWhile_append_dropWhile
  · cases h

end SqlPreview.Name
