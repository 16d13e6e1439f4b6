import SqlPreview.Command.Log
import SqlPreview.Command.Run

namespace SqlPreview

-- The causes that the program names itself.
def FileFault.ofError : IO.Error → FileFault
  | .noFileOrDirectory .. => .notFound
  | .alreadyExists .. => .present
  | .inappropriateType _ code _ => if code = 21 then .isDirectory else .notDirectory
  | error => .other (toString error).toList

def attempt {α : Type} (action : IO α) : IO (Except FileFault α) := do
  match ← action.toBaseIO with
  | .ok a => return .ok a
  | .error error => return .error (.ofError error)

partial def readAll (stream : IO.FS.Stream) (before : ByteArray) : IO ByteArray := do
  let bytes ← stream.read 65536
  if bytes.isEmpty then return before else readAll stream (before ++ bytes)

-- A path is there if it can be opened, or if something else than its absence hinders that.
def isThere (path : Text) : IO Bool := do
  match ← attempt (IO.FS.Handle.mk (String.ofList path) .read) with
  | .ok _ => return true
  | .error .notFound | .error .notDirectory => return false
  | .error _ => return true

-- The filter that the environment asks for.
def ambientFilter : IO (Option Filter) := do
  return (← IO.getEnv "RUST_LOG").bind fun t => Filter.read? t.toList

-- The answer of the real surroundings. `log` holds the filter of the log.
def answer (log : IO.Ref Filter) : (request : Request) → IO request.Answer
  | .present path => isThere path
  | .readFile path => do
    return (← attempt (IO.FS.readBinFile (String.ofList path))).bind FileFault.decode
  | .readInput => do
    return (← attempt (readAll (← IO.getStdin) .empty)).bind FileFault.decode
  | .makeDirectories path => attempt (IO.FS.createDirAll (String.ofList path))
  | .writeFile path content =>
    attempt (IO.FS.writeFile (String.ofList path) (String.ofList content))
  | .startLog isVerbose => do log.set (.choose isVerbose (← ambientFilter))
  | .print t => do (← IO.getStdout).putStr (String.ofList t)
  | .warn t => do (← IO.getStderr).putStr (String.ofList t)
  | .log event => do
    if (← log.get) event then (← IO.getStderr).putStr (String.ofList event.line)

def hold {α : Type} (log : IO.Ref Filter) : Dialogue α → IO α
  | .done a => return a
  | .ask request next => do hold log (next (← answer log request))

end SqlPreview

open SqlPreview in
def main (words : List String) : IO UInt32 := do
  let log ← IO.mkRef (fun _ => false : Filter)
  hold log (Command.program (words.map String.toList) .standard)
