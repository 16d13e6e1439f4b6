import SqlPreview.Command.Dialogue
import SqlPreview.Command.Log

namespace SqlPreview

-- A file tree as one can look at it: whether a path leads somewhere, and the bytes of a file.
structure Files where
  present : Text → Bool
  read : Text → Except FileFault ByteArray

def Files.readText (files : Files) (path : Text) : Except FileFault Text :=
  (files.read path).bind FileFault.decode

-- What a command is run on, with states `σ` of its disk. `ambient` is the filter that the environment
-- asks for, and `logLine` writes an event behind a number of earlier ones.
structure Host (σ : Type) where
  files : σ → Files
  makeDirectories : Text → σ → Except FileFault Unit × σ
  writeFile : (path content : Text) → σ → Except FileFault Unit × σ
  ambient : Option Filter
  logLine : Nat → Event → Text

-- The disk, what can be read from the standard input, and what came out so far. `filter` tells which
-- of the events are shown.
structure Process (σ : Type) where
  disk : σ
  input : Except FileFault ByteArray
  stdout : Text
  stderr : Text
  filter : Filter
  events : List Event

namespace Process

variable {σ : Type}

-- Before the log is started it shows nothing.
def start (disk : σ) (input : Except FileFault ByteArray) : Process σ :=
  ⟨disk, input, [], [], fun _ => false, []⟩

-- Events that are shown go where the warnings go, so that they do not mix with the printed SQL.
def tell (host : Host σ) (event : Event) (s : Process σ) : Process σ :=
  { s with
    stderr := s.stderr ++ if s.filter event then host.logLine s.events.length event else []
    events := s.events ++ [event] }

-- What a change of the disk answers, and the process after it.
def changed (s : Process σ) (change : σ → Except FileFault Unit × σ) :
    Except FileFault Unit × Process σ :=
  ((change s.disk).1, { s with disk := (change s.disk).2 })

-- The answer to a request, and the process after it.
def answer (host : Host σ) : (request : Request) → Process σ → request.Answer × Process σ
  | .present path, s => ((host.files s.disk).present path, s)
  | .readFile path, s => ((host.files s.disk).readText path, s)
  | .readInput, s => (s.input.bind FileFault.decode, s)
  | .makeDirectories path, s => s.changed (host.makeDirectories path)
  | .writeFile path content, s => s.changed (host.writeFile path content)
  | .startLog isVerbose, s => ((), { s with filter := .choose isVerbose host.ambient })
  | .print t, s => ((), { s with stdout := s.stdout ++ t })
  | .warn t, s => ((), { s with stderr := s.stderr ++ t })
  | .log event, s => ((), s.tell host event)

end Process

end SqlPreview
