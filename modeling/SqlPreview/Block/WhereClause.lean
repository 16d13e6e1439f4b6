import SqlPreview.Text.Blank
import SqlPreview.Text.Word

namespace SqlPreview.WhereClause

def connectives : List Text :=
  ["and".toList, "or".toList]

-- Removes a whole word, in any case, from the front of a text, and the blanks behind it.
def afterWord? (word t : Text) : Option Text :=
  match Text.splitWord? word t with
  | some (_, rest) => if rest.head?.any Text.isWord then none else some (Text.trimStart rest)
  | none => none

def withoutConnective (t : Text) : Text :=
  (connectives.findSome? (afterWord? · t)).getD t

-- The clause, or nothing if nothing is left of the body.
def ofBody (body : Text) : Text :=
  let body := withoutConnective (Text.trim body)
  if body = [] then [] else "WHERE ".toList ++ body

end SqlPreview.WhereClause
