import SqlPreview.Text.Basic

namespace SqlPreview.Path

-- The first name of a path and the names behind it. The first name of an absolute path is empty.
def segments (path : Text) : Text × List Text :=
  match path.splitOn '/' with
  | first :: rest => (first, rest)
  | [] => ([], [])

def isIdle (segment : Text) : Bool :=
  segment == [] || segment == ['.']

-- Names without those at the end that count for nothing.
def trimIdle (segments : List Text) : List Text :=
  (segments.reverse.dropWhile isIdle).reverse

def isAbsolute (path : Text) : Bool :=
  path.head? == some '/'

-- The directory that a path lies in, as far as the path tells. The root has none, and neither has
-- the empty path.
def parent? (path : Text) : Option Text :=
  let (first, rest) := segments path
  match trimIdle rest with
  | [] => if first = [] then none else some []
  | rest =>
    match first, trimIdle rest.dropLast with
    | [], [] => some ['/']
    | first, before => some (['/'].intercalate (first :: before))

-- The last name of a path, if it is the name of a file.
def fileName? (path : Text) : Option Text :=
  let (first, rest) := segments path
  let last := (trimIdle rest).getLast?.getD first
  if isIdle last ∨ last = ['.', '.'] then none else some last

-- What follows the last point of the last name. A point at its beginning does not count.
def extension? (path : Text) : Option Text :=
  (fileName? path).bind fun name =>
    let behind := name.reverse.takeWhile (· != '.')
    match name.reverse.dropWhile (· != '.') with
    | _ :: _ :: _ => some behind.reverse
    | _ => none

def join (directory path : Text) : Text :=
  if isAbsolute path then path
  else if directory = [] ∨ directory.getLast? = some '/' then directory ++ path
  else directory ++ '/' :: path

end SqlPreview.Path
