import SqlPreview.Text.Blank

namespace SqlPreview.SetClause

def withComma (line : Text) : Text :=
  if line.getLast? = some ',' then line else line ++ [',']

def withoutComma (line : Text) : Text :=
  if line.getLast? = some ',' then line.dropLast else line

-- Every line ends with a comma but the last one, which loses its own.
def punctuate : List Text → List Text
  | [] => []
  | [line] => [withoutComma line]
  | line :: next :: rest => withComma line :: punctuate (next :: rest)

-- The lines of a text, trimmed, without the blank ones.
def filledLines (t : Text) : List Text :=
  ((t.splitOn '\n').map Text.trim).filter (· != [])

-- The clause with one assignment a line.
def ofBody (body : Text) : Text :=
  "SET\n".toList ++ ['\n'].intercalate (punctuate (filledLines body))

end SqlPreview.SetClause
