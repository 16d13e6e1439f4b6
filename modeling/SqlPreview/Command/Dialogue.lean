import SqlPreview.Event

namespace SqlPreview

inductive FileFault where
  | notFound
  | present
  | notDirectory
  | isDirectory
  | notText
  | other (message : Text)
deriving DecidableEq, Repr

def FileFault.message : FileFault → Text
  | notFound => "No such file or directory (os error 2)".toList
  | present => "File exists (os error 17)".toList
  | notDirectory => "Not a directory (os error 20)".toList
  | isDirectory => "Is a directory (os error 21)".toList
  | notText => "stream did not contain valid UTF-8".toList
  | other message => message

def FileFault.decode (bytes : ByteArray) : Except FileFault Text :=
  match String.fromUTF8? bytes with
  | some s => .ok s.toList
  | none => .error .notText

inductive Request where
  | present (path : Text)
  | readFile (path : Text)
  | readInput
  | makeDirectories (path : Text)
  | writeFile (path content : Text)
  | startLog (isVerbose : Bool)
  | print (t : Text)
  | warn (t : Text)
  | log (event : Event)

def Request.Answer : Request → Type
  | present _ => Bool
  | readFile _ | readInput => Except FileFault Text
  | makeDirectories _ | writeFile _ _ => Except FileFault Unit
  | startLog _ | print _ | warn _ | log _ => Unit

-- A result, or a request and what follows its answer. By itself a dialogue does nothing: it is held
-- with a model of its surroundings, or with the real ones.
inductive Dialogue (α : Type) where
  | done (a : α)
  | ask (request : Request) (next : request.Answer → Dialogue α)

namespace Dialogue

variable {α β : Type}

def bind (dialogue : Dialogue α) (f : α → Dialogue β) : Dialogue β :=
  match dialogue with
  | done a => f a
  | ask request next => ask request fun answer => (next answer).bind f

instance : Monad Dialogue where
  pure := done
  bind := bind

def request (request : Request) : Dialogue request.Answer :=
  ask request done

-- Holds a dialogue with surroundings that are changed by every answer.
def run {σ : Type} (answer : (request : Request) → σ → request.Answer × σ) :
    Dialogue α → σ → α × σ
  | done a, state => (a, state)
  | ask request next, state =>
    let (reply, state) := answer request state
    (next reply).run answer state

@[simp]
theorem run_done {σ : Type} (answer : (request : Request) → σ → request.Answer × σ) (a : α)
    (state : σ) : (done a).run answer state = (a, state) := rfl

theorem run_bind {σ : Type} (answer : (request : Request) → σ → request.Answer × σ)
    (dialogue : Dialogue α) (f : α → Dialogue β) (state : σ) :
    (dialogue.bind f).run answer state =
      (f (dialogue.run answer state).1).run answer (dialogue.run answer state).2 := by
  induction dialogue generalizing state with
  | done a => rfl
  | ask request next ih => exact ih _ _

end Dialogue

end SqlPreview
