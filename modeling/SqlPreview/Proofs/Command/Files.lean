import SqlPreview.Command.Process
import SqlPreview.Command.Run

namespace SqlPreview

def Request.ChangesFiles : Request → Prop
  | .makeDirectories _ | .writeFile _ _ => True
  | _ => False

variable {σ α β : Type}

namespace Dialogue

-- Whatever a dialogue is answered, it does not ask for a change of files.
def LeavesFiles : Dialogue α → Prop
  | done _ => True
  | ask request next => ¬request.ChangesFiles ∧ ∀ answer, (next answer).LeavesFiles

theorem LeavesFiles.bind {dialogue : Dialogue α} {f : α → Dialogue β} (h : dialogue.LeavesFiles)
    (hf : ∀ a, (f a).LeavesFiles) : (dialogue.bind f).LeavesFiles := by
  induction dialogue with
  | done a => exact hf a
  | ask request next ih => exact ⟨h.1, fun answer => ih answer (h.2 answer)⟩

theorem disk_run {dialogue : Dialogue α} (h : dialogue.LeavesFiles) (host : Host σ)
    (s : Process σ) : (dialogue.run (Process.answer host) s).2.disk = s.disk := by
  induction dialogue generalizing s with
  | done a => rfl
  | ask request next ih =>
    have hrequest : (Process.answer host request s).2.disk = s.disk := by
      cases request with
      | makeDirectories path => exact absurd trivial h.1
      | writeFile path content => exact absurd trivial h.1
      | _ => rfl
    exact (ih _ (h.2 _) _).trans hrequest

end Dialogue

namespace Command

namespace Attempt

def LeavesFiles (attempt : Attempt α) : Prop :=
  Dialogue.LeavesFiles attempt.run

theorem leavesFiles_pure (a : α) : (pure a : Attempt α).LeavesFiles := trivial

theorem leavesFiles_throw (failure : Failure) : (throw failure : Attempt α).LeavesFiles := trivial

theorem LeavesFiles.bind {attempt : Attempt α} {next : α → Attempt β} (h : attempt.LeavesFiles)
    (hn : ∀ a, (next a).LeavesFiles) : (attempt >>= next).LeavesFiles := by
  refine Dialogue.LeavesFiles.bind h fun result => ?_
  cases result with
  | ok a => exact hn a
  | error failure => exact leavesFiles_throw failure

theorem leavesFiles_ite {p : Prop} [Decidable p] {attempt other : Attempt α}
    (h : attempt.LeavesFiles) (ho : other.LeavesFiles) :
    (if p then attempt else other).LeavesFiles := by
  split
  · exact h
  · exact ho

theorem leavesFiles_ask {request : Request} (h : ¬request.ChangesFiles) :
    (ask request).LeavesFiles :=
  ⟨h, fun _ => trivial⟩

theorem leavesFiles_orFail {ε : Type} (failure : ε → Failure) (result : Except ε α) :
    (orFail failure result).LeavesFiles := by
  cases result with
  | ok a => exact leavesFiles_pure a
  | error fault => exact leavesFiles_throw (failure fault)

theorem leavesFiles_readFile (failure : FileFault → Failure) (path : Text) :
    (readFile failure path).LeavesFiles :=
  (leavesFiles_ask id).bind fun answer => leavesFiles_orFail failure answer

theorem leavesFiles_forM {act : α → Attempt Unit} (h : ∀ a, (act a).LeavesFiles) (items : List α) :
    (items.forM act).LeavesFiles := by
  induction items with
  | nil => exact leavesFiles_pure ()
  | cons item items ih => exact (h item).bind fun _ => ih

end Attempt

open Attempt

variable {decoders : Decoders}

theorem leavesFiles_readParamsFile (path : Text) : (readParamsFile decoders path).LeavesFiles := by
  refine (leavesFiles_readFile _ path).bind fun t => ?_
  split
  · exact leavesFiles_throw _
  · exact leavesFiles_orFail _ _

theorem leavesFiles_readConfig (path : Text) : (readConfig decoders path).LeavesFiles :=
  (leavesFiles_readFile _ path).bind fun _ => leavesFiles_orFail _ _

theorem leavesFiles_configParams (path : Text) (config : Config) :
    (configParams decoders path config).LeavesFiles := by
  unfold configParams
  split
  · exact (leavesFiles_readParamsFile _).bind fun _ => leavesFiles_pure _
  · exact leavesFiles_pure _

theorem leavesFiles_loadConfig (path : Text) : (loadConfig decoders path).LeavesFiles := by
  refine (leavesFiles_ask id).bind fun (present : Bool) => ?_
  refine leavesFiles_ite ?_ (leavesFiles_pure _)
  refine (leavesFiles_readConfig path).bind fun config => (leavesFiles_ask id).bind fun _ => ?_
  exact (leavesFiles_configParams path config).bind fun _ => leavesFiles_pure _

theorem leavesFiles_assign (params : Map Value) (inputs : List Text) :
    (assign params inputs).LeavesFiles := by
  induction inputs generalizing params with
  | nil => exact leavesFiles_pure params
  | cons input inputs ih => exact (leavesFiles_orFail _ _).bind fun assigned => ih _

theorem leavesFiles_gatherParams (arguments : RenderArguments) (configured : Map Value) :
    (gatherParams decoders arguments configured).LeavesFiles := by
  unfold gatherParams
  split
  · exact (leavesFiles_readParamsFile _).bind fun given => leavesFiles_assign _ _
  · exact leavesFiles_assign _ _

theorem leavesFiles_loadParams (arguments : RenderArguments) :
    (loadParams decoders arguments).LeavesFiles :=
  (leavesFiles_loadConfig _).bind fun configured =>
    (leavesFiles_gatherParams arguments configured.2).bind fun _ => leavesFiles_pure _

theorem leavesFiles_readTemplate (file : Option Text) : (readTemplate file).LeavesFiles := by
  cases file with
  | none => exact (leavesFiles_ask id).bind fun answer => leavesFiles_orFail _ answer
  | some path => exact leavesFiles_readFile _ path

theorem leavesFiles_showRender (lint denyWarnings : Bool) (template : Template) (params : Params) :
    (showRender lint denyWarnings template params).LeavesFiles := by
  refine (leavesFiles_forM (fun _ => leavesFiles_ask id) _).bind fun _ => ?_
  refine (leavesFiles_forM (fun _ => leavesFiles_ask id) _).bind fun _ => ?_
  refine (leavesFiles_forM (fun _ => leavesFiles_ask id) _).bind fun _ => ?_
  refine (leavesFiles_ask id).bind fun _ => ?_
  refine (leavesFiles_forM (fun _ => leavesFiles_ask id) _).bind fun _ => ?_
  exact leavesFiles_ite (leavesFiles_pure _) (leavesFiles_throw _)

theorem leavesFiles_runRender (arguments : RenderArguments) :
    (runRender decoders arguments).LeavesFiles := by
  refine (leavesFiles_loadParams arguments).bind fun loaded => ?_
  refine (leavesFiles_readTemplate arguments.file).bind fun source => ?_
  exact leavesFiles_ite (leavesFiles_throw _) (leavesFiles_showRender _ _ _ _)

-- Whatever the program meets, a render asks for no change of a file.
theorem leavesFiles_program {words : List Text} {arguments : RenderArguments}
    (h : read words = .ok (.render arguments)) : (program words decoders).LeavesFiles := by
  have hrun : (run words decoders).LeavesFiles := by
    rw [run, h]
    exact (leavesFiles_ask id).bind fun _ => leavesFiles_runRender arguments
  refine Dialogue.LeavesFiles.bind hrun fun result => ?_
  cases result with
  | ok _ => exact trivial
  | error failure => exact ⟨id, fun _ => trivial⟩

end Command

end SqlPreview
