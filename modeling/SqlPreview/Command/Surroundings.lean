import SqlPreview.Command.Path
import SqlPreview.Command.Process
import SqlPreview.Table

namespace SqlPreview

-- A file with its bytes, or a directory.
inductive FileNode where
  | file (content : ByteArray)
  | directory (entries : List (Text × FileNode))

namespace FileNode

abbrev Entries := Table FileNode

-- What a row of names leads to. `above` holds the directories passed on the way, the last one
-- first; the way up from the root leads back to it.
def walk (above : List Entries) (node : FileNode) :
    (segments : List Text) → Except FileFault FileNode
  | [] => .ok node
  | segment :: rest =>
    match node with
    | file _ => .error .notDirectory
    | directory entries =>
      if Path.isIdle segment then walk above node rest
      else if segment = ['.', '.'] then
        match above with
        | [] => walk [] node rest
        | upper :: above => walk above (directory upper) rest
      else
        match Table.get? segment entries with
        | none => .error .notFound
        | some child => walk (entries :: above) child rest

-- Puts a file or directory at a place inside a directory. Missing directories on the way are
-- made; the way may not lead through a file.
def put (node : FileNode) : (segments : List Text) → Entries → Option Entries
  | [], _ => none
  | [name], entries => some (Table.insert name node entries)
  | name :: next :: rest, entries =>
    match Table.get? name entries with
    | none =>
      (put node (next :: rest) []).map fun inner => Table.insert name (directory inner) entries
    | some (directory inner) =>
      (put node (next :: rest) inner).map fun inner => Table.insert name (directory inner) entries
    | some (file _) => none

mutual

-- The files at and below a node, each with its path.
def files (path : Text) : FileNode → List (Text × ByteArray)
  | file content => [(path, content)]
  | directory entries => filesIn (path ++ ['/']) entries

def filesIn (lead : Text) : List (Text × FileNode) → List (Text × ByteArray)
  | [] => []
  | (name, node) :: rest => files (lead ++ name) node ++ filesIn lead rest

end

end FileNode

-- All files from the root on. `place` are the names that lead to the working directory.
structure FileTree where
  root : FileNode.Entries
  place : List Text

namespace FileTree

-- The names that lead to where other names lead from the working directory, or from the root if the
-- first of them is empty.
def fromRoot (tree : FileTree) (segments : List Text) : List Text :=
  if segments.head? = some [] then segments else tree.place ++ segments

def find (tree : FileTree) (segments : List Text) : Except FileFault FileNode :=
  FileNode.walk [] (.directory tree.root) (tree.fromRoot segments)

-- The names that a path goes through. The first name of an absolute path is empty.
def segments (path : Text) : List Text :=
  let (first, rest) := Path.segments path
  first :: rest

-- What a path leads to. The empty path leads nowhere.
def lookup (tree : FileTree) (path : Text) : Except FileFault FileNode :=
  if path = [] then .error .notFound else tree.find (segments path)

def read (tree : FileTree) (path : Text) : Except FileFault ByteArray :=
  match tree.lookup path with
  | .ok (.file content) => .ok content
  | .ok (.directory _) => .error .isDirectory
  | .error fault => .error fault

-- The place that a row of names leads to from another place, if all names on the way are there.
-- Places are given last name first.
def placeOf (above : List Text) : (segments : List Text) → List Text
  | [] => above
  | segment :: rest =>
    if Path.isIdle segment then placeOf above rest
    else if segment = ['.', '.'] then placeOf above.tail rest
    else placeOf (segment :: above) rest

-- Puts something where a row of names leads to.
def put (tree : FileTree) (segments : List Text) (node : FileNode) : FileTree :=
  let place := (placeOf [] (tree.fromRoot segments)).reverse
  { tree with root := (node.put place tree.root).getD tree.root }

def makeDirectory (tree : FileTree) (segments : List Text) : Except FileFault FileTree :=
  match tree.find segments with
  | .ok (.directory _) => .ok tree
  | .ok (.file _) => .error .present
  | .error .notFound => .ok (tree.put segments (.directory []))
  | .error fault => .error fault

-- Makes every directory on a way, the upper ones first.
def makeWay (tree : FileTree) (before : List Text) :
    (segments : List Text) → Except FileFault FileTree
  | [] => .ok tree
  | segment :: rest => do
    let tree ← tree.makeDirectory (before ++ [segment])
    tree.makeWay (before ++ [segment]) rest

-- Makes a directory and those above it. What is there already may be a directory only.
def makeDirectories (tree : FileTree) (path : Text) : Except FileFault FileTree :=
  match tree.lookup path with
  | .ok (.directory _) => .ok tree
  | .ok (.file _) => .error .present
  | .error .notFound => tree.makeWay [] (segments path)
  | .error fault => .error fault

-- Writes a file. The way to its directory must be there, and its path must not end like that of a
-- directory.
def writeFile (tree : FileTree) (path content : Text) : Except FileFault FileTree :=
  let segments := segments path
  let named := (segments.reverse.dropWhile (· == [])).reverse
  let last := named.getLast?.getD []
  if path = [] then .error .notFound
  else
    match tree.find named.dropLast with
    | .error fault => .error fault
    | .ok (.file _) => .error .notDirectory
    | .ok (.directory _) =>
      if named.length < segments.length ∨ Path.isIdle last ∨ last = ['.', '.'] then
        .error .isDirectory
      else
        match tree.find named with
        | .ok (.directory _) => .error .isDirectory
        | _ => .ok (tree.put named (.file (String.ofList content).toUTF8))

-- A change that fails changes nothing.
def changed (tree : FileTree) : Except FileFault FileTree → Except FileFault Unit × FileTree
  | .ok after => (.ok (), after)
  | .error fault => (.error fault, tree)

-- File trees as the disk of a command.
def host (ambient : Option Filter) (logLine : Nat → Event → Text) : Host FileTree where
  files tree := ⟨fun path => (tree.lookup path).isOk, tree.read⟩
  makeDirectories path tree := tree.changed (tree.makeDirectories path)
  writeFile path content tree := tree.changed (tree.writeFile path content)
  ambient := ambient
  logLine := logLine

-- The files in the working directory, each with its path from there.
def files (tree : FileTree) : List (Text × ByteArray) :=
  match tree.find [] with
  | .ok (.directory entries) => FileNode.filesIn [] entries
  | _ => []

end FileTree

-- The process of a command that is tried out on a tree of its own. Events are kept, but not written.
abbrev Surroundings := Process FileTree

namespace Surroundings

-- A process in a working directory beside which there is nothing.
def start (work : FileNode.Entries) (input : ByteArray) : Surroundings :=
  Process.start ⟨[("work".toList, .directory work)], ["work".toList]⟩ (.ok input)

def segments (path : Text) : List Text :=
  FileTree.segments path

def put (s : Surroundings) (segments : List Text) (node : FileNode) : Surroundings :=
  { s with disk := s.disk.put segments node }

def answer : (request : Request) → Surroundings → request.Answer × Surroundings :=
  Process.answer (FileTree.host none fun _ _ => [])

def files (s : Surroundings) : List (Text × ByteArray) :=
  s.disk.files

end Surroundings

end SqlPreview
