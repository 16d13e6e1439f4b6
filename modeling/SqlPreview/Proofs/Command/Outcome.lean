import SqlPreview.Command.Process
import SqlPreview.Command.Run

namespace SqlPreview

variable {σ α β : Type}

-- What a log with a filter shows of events in a row, behind a number of earlier ones.
def Host.logText (host : Host σ) (filter : Filter) : Nat → List Event → Text
  | _, [] => []
  | count, event :: events =>
    (if filter event then host.logLine count event else []) ++ logText host filter (count + 1) events

theorem Host.logText_append (host : Host σ) (filter : Filter) (count : Nat)
    (events more : List Event) :
    host.logText filter count (events ++ more) =
      host.logText filter count events ++ host.logText filter (count + events.length) more := by
  induction events generalizing count with
  | nil => rfl
  | cons event events ih =>
    simp only [List.cons_append, logText, ih, List.append_assoc, List.length_cons]
    rw [Nat.add_right_comm, Nat.add_assoc]

theorem Host.logText_eq_nil {filter : Filter} {events : List Event}
    (h : ∀ event ∈ events, filter event = false) (host : Host σ) (count : Nat) :
    host.logText filter count events = [] := by
  induction events generalizing count with
  | nil => rfl
  | cons event events ih =>
    obtain ⟨hevent, hevents⟩ := List.forall_mem_cons.1 h
    simp [logText, hevent, ih hevents]

namespace Process

-- The process after more events.
def told (host : Host σ) (events : List Event) (s : Process σ) : Process σ :=
  { s with
    stderr := s.stderr ++ host.logText s.filter s.events.length events
    events := s.events ++ events }

-- The process after a text on the standard error.
def warned (t : Text) (s : Process σ) : Process σ :=
  { s with stderr := s.stderr ++ t }

-- The process once its log is started.
def logging (host : Host σ) (isVerbose : Bool) (s : Process σ) : Process σ :=
  { s with filter := .choose isVerbose host.ambient }

-- The process after a text on the standard output.
def printed (t : Text) (s : Process σ) : Process σ :=
  { s with stdout := s.stdout ++ t }

theorem told_nil (host : Host σ) (s : Process σ) : s.told host [] = s := by
  simp [told, Host.logText]

theorem told_told (host : Host σ) (s : Process σ) (events more : List Event) :
    (s.told host events).told host more = s.told host (events ++ more) := by
  simp [told, Host.logText_append]

theorem tell_eq_told (host : Host σ) (event : Event) (s : Process σ) :
    s.tell host event = s.told host [event] := by
  simp [tell, told, Host.logText]

end Process

namespace Command.Attempt

variable {host : Host σ} {s after : Process σ}

-- The result of an attempt, and the process after it.
def outcome (host : Host σ) (attempt : Attempt α) (s : Process σ) : Except Failure α × Process σ :=
  Dialogue.run (Process.answer host) attempt.run s

@[simp]
theorem outcome_pure (a : α) (s : Process σ) :
    (pure a : Attempt α).outcome host s = (.ok a, s) := rfl

@[simp]
theorem outcome_throw (failure : Failure) (s : Process σ) :
    (throw failure : Attempt α).outcome host s = (.error failure, s) := rfl

theorem outcome_bind (attempt : Attempt α) (next : α → Attempt β) (s : Process σ) :
    (attempt >>= next).outcome host s =
      match attempt.outcome host s with
      | (.ok a, after) => (next a).outcome host after
      | (.error failure, after) => (.error failure, after) := by
  have hbind : (attempt >>= next).outcome host s = Dialogue.run (Process.answer host)
      (ExceptT.bindCont next (attempt.outcome host s).1) (attempt.outcome host s).2 :=
    Dialogue.run_bind _ _ _ _
  rw [hbind]
  obtain ⟨a | failure, after⟩ := attempt.outcome host s <;> rfl

theorem outcome_bind_of_ok {attempt : Attempt α} {a : α}
    (h : attempt.outcome host s = (.ok a, after)) (next : α → Attempt β) :
    (attempt >>= next).outcome host s = (next a).outcome host after := by
  rw [outcome_bind, h]

theorem outcome_bind_of_error {attempt : Attempt α} {failure : Failure}
    (h : attempt.outcome host s = (.error failure, after)) (next : α → Attempt β) :
    (attempt >>= next).outcome host s = (.error failure, after) := by
  rw [outcome_bind, h]

theorem outcome_ask (request : Request) (s : Process σ) :
    (ask request).outcome host s =
      (.ok (Process.answer host request s).1, (Process.answer host request s).2) := rfl

@[simp]
theorem outcome_orFail {ε : Type} (failure : ε → Failure) (result : Except ε α) (s : Process σ) :
    (orFail failure result).outcome host s = (result.mapError failure, s) := by
  cases result <;> rfl

theorem outcome_isPresent (path : Text) (s : Process σ) :
    (isPresent path).outcome host s = (.ok ((host.files s.disk).present path), s) := rfl

theorem outcome_readFile (failure : FileFault → Failure) (path : Text) (s : Process σ) :
    (readFile failure path).outcome host s =
      (((host.files s.disk).readText path).mapError failure, s) := by
  rw [readFile, outcome_bind, outcome_ask, ← outcome_orFail]
  rfl

theorem outcome_startLog (isVerbose : Bool) (s : Process σ) :
    (startLog isVerbose).outcome host s = (.ok (), s.logging host isVerbose) := rfl

theorem outcome_log (event : Event) (s : Process σ) :
    (log event).outcome host s = (.ok (), s.told host [event]) :=
  congrArg (Prod.mk _) (Process.tell_eq_told host event s)

theorem outcome_print (t : Text) (s : Process σ) :
    (print t).outcome host s = (.ok (), s.printed t) := rfl

theorem outcome_warn (line : Text) (s : Process σ) :
    (warn line).outcome host s = (.ok (), s.warned (line ++ ['\n'])) := rfl

theorem outcome_logAll (events : List Event) (s : Process σ) :
    (logAll events).outcome host s = (.ok (), s.told host events) := by
  induction events generalizing s with
  | nil => exact congrArg (Prod.mk _) (Process.told_nil host s).symm
  | cons event events ih =>
    calc (logAll (event :: events)).outcome host s
        = (logAll events).outcome host (s.told host [event]) :=
          outcome_bind_of_ok (outcome_log event s) _
      _ = (.ok (), s.told host (event :: events)) := by rw [ih, Process.told_told]; rfl

theorem outcome_forM_warn (line : α → Text) (items : List α) (s : Process σ) :
    (items.forM fun item => warn (line item)).outcome host s =
      (.ok (), s.warned (items.flatMap fun item => line item ++ ['\n'])) := by
  induction items generalizing s with
  | nil => simp [Process.warned]
  | cons item items ih =>
    refine (outcome_bind_of_ok (outcome_warn (line item) s) _).trans ?_
    rw [ih]
    simp [Process.warned]

-- An attempt tells some events and finds something out, or fails because it is not to be found.
-- Either way it does nothing else.
def Finds (host : Host σ) (attempt : Attempt α) (s : Process σ) (events : List Event)
    (found : Option α) : Prop :=
  ∃ result, attempt.outcome host s = (result, s.told host events) ∧ result.toOption = found

theorem finds_of_outcome {attempt : Attempt α} {result : Except Failure α}
    (h : attempt.outcome host s = (result, s)) : attempt.Finds host s [] result.toOption :=
  ⟨result, by rw [h, Process.told_nil], rfl⟩

theorem finds_pure (a : α) (s : Process σ) : (pure a : Attempt α).Finds host s [] (some a) :=
  finds_of_outcome (outcome_pure a s)

theorem finds_throw (failure : Failure) (s : Process σ) :
    (throw failure : Attempt α).Finds host s [] none :=
  finds_of_outcome (outcome_throw failure s)

theorem toOption_mapError {ε : Type} (failure : ε → Failure) (result : Except ε α) :
    (result.mapError failure).toOption = result.toOption := by
  cases result <;> rfl

theorem finds_orFail {ε : Type} (failure : ε → Failure) (result : Except ε α) (s : Process σ) :
    (orFail failure result).Finds host s [] result.toOption := by
  rw [← toOption_mapError failure]
  exact finds_of_outcome (outcome_orFail failure result s)

theorem finds_readFile (failure : FileFault → Failure) (path : Text) (s : Process σ) :
    (readFile failure path).Finds host s [] ((host.files s.disk).readText path).toOption := by
  rw [← toOption_mapError failure]
  exact finds_of_outcome (outcome_readFile failure path s)

-- What is found in two steps is found in one. The second step, if it comes to that, tells nothing.
theorem Finds.bind {attempt : Attempt α} {events : List Event} {found : Option α}
    {next : α → Attempt β} {then? : α → Option β} (h : attempt.Finds host s events found)
    (hn : ∀ a, (next a).Finds host (s.told host events) [] (then? a)) :
    (attempt >>= next).Finds host s events (found.bind then?) := by
  obtain ⟨result, h, rfl⟩ := h
  cases result with
  | error failure => exact ⟨_, outcome_bind_of_error h next, rfl⟩
  | ok a =>
    obtain ⟨result, hmore, hr⟩ := hn a
    rw [Process.told_nil] at hmore
    exact ⟨result, (outcome_bind_of_ok h next).trans hmore, hr⟩

theorem Finds.map {attempt : Attempt α} {events : List Event} {found : Option α}
    (h : attempt.Finds host s events found) (f : α → β) :
    (attempt >>= fun a => pure (f a)).Finds host s events (found.map f) := by
  rw [Option.map_eq_bind]
  exact h.bind fun a => finds_pure (f a) (s.told host events)

theorem finds_bind_of_ok {attempt : Attempt α} {a : α} {next : α → Attempt β}
    {events : List Event} {found : Option β} (h : attempt.outcome host s = (.ok a, s))
    (hn : (next a).Finds host s events found) : (attempt >>= next).Finds host s events found := by
  obtain ⟨result, hn, hr⟩ := hn
  exact ⟨result, (outcome_bind_of_ok h next).trans hn, hr⟩

theorem finds_log_bind {event : Event} {next : Unit → Attempt α} {events : List Event}
    {found : Option α} (h : (next ()).Finds host (s.told host [event]) events found) :
    (log event >>= next).Finds host s (event :: events) found := by
  obtain ⟨result, h, hr⟩ := h
  refine ⟨result, (outcome_bind_of_ok (outcome_log event s) next).trans ?_, hr⟩
  rw [h, Process.told_told, List.singleton_append]

end Command.Attempt

end SqlPreview
