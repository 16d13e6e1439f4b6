import SqlPreview.Command.Surroundings
import SqlPreview.Proofs.Command.Outcome
import SqlPreview.Proofs.Table

namespace SqlPreview.Command

open Attempt

section Reading

variable (decoders : Decoders) (files : Files)

def config? (path : Text) : Option Config :=
  (files.readText path).toOption.bind fun t => (decoders.readConfig t).toOption

-- The parameters of a file, read in the format that its extension tells.
def params? (path : Text) : Option (Map Value) :=
  (files.readText path).toOption.bind fun t =>
    (paramsReader? decoders path).bind fun read => (read t).toOption

-- No file gives no parameters.
def paramsOf? : Option Text → Option (Map Value)
  | some path => params? decoders files path
  | none => some .empty

-- There need not be a configuration, but if there is one it must be readable.
def configAt? (path : Text) : Option (Option Config) :=
  if files.present path then (config? decoders files path).map some else some none

-- Told of while the layers are loaded is a configuration that can be read, whatever becomes of the
-- layers behind it.
def loadEvents (path : Text) : List Event :=
  match configAt? decoders files path with
  | some (some config) => [.loadedConfig path config.params.size]
  | _ => []

end Reading

-- The layers of the parameters of a render, the weakest one first. Assignments are in the order in
-- which they are given.
structure Layers where
  config : Option Config
  configFile : Map Value
  file : Map Value
  assigned : List (Text × Value)

namespace Layers

def settingsOf (config : Option Config) : Settings :=
  (config.map Config.settings).getD .default

def paramsOf (config : Option Config) : Map Value :=
  (config.map Config.params).getD .empty

-- All assignments of a command line, if each of them is well formed.
def assigned? (inputs : List Text) : Option (List (Text × Value)) :=
  inputs.mapM fun input => (Assignment.read input).toOption

-- The layers that a command line asks for, if all of them can be read.
def load? (decoders : Decoders) (files : Files) (arguments : RenderArguments) : Option Layers := do
  let config ← configAt? decoders files arguments.config
  let configFile ← paramsOf? decoders files
    ((settingsOf config).paramsFile.map (resolve arguments.config))
  let file ← paramsOf? decoders files arguments.paramsFile
  let assigned ← assigned? arguments.assignments
  return ⟨config, configFile, file, assigned⟩

def settings (layers : Layers) : Settings :=
  settingsOf layers.config

-- The value of a name: that of its last assignment, or else that of the strongest file.
def get? (name : Text) (layers : Layers) : Option Value :=
  (Table.get? name layers.assigned.reverse).or <| (layers.file.get? name).or <|
    (layers.configFile.get? name).or ((paramsOf layers.config).get? name)

-- The parameters from all layers.
def params (layers : Layers) : Map Value :=
  (((paramsOf layers.config).merge layers.configFile).merge layers.file).insertAll layers.assigned

theorem get?_params (layers : Layers) (name : Text) : layers.params.get? name = layers.get? name := by
  rw [params, Map.get?_insertAll, Map.get?_merge, Map.get?_merge, get?]

end Layers

variable {decoders : Decoders} {files : Files} {arguments : RenderArguments} {layers : Layers}

-- A layer that is used and cannot be read.
inductive LayerFails (decoders : Decoders) (files : Files) (arguments : RenderArguments) : Prop where
  | config (hp : files.present arguments.config)
      (h : config? decoders files arguments.config = none)
  | configFile {config : Config} {file : Text} (hp : files.present arguments.config)
      (hc : config? decoders files arguments.config = some config)
      (hf : config.settings.paramsFile = some file)
      (h : params? decoders files (resolve arguments.config file) = none)
  | file {path : Text} (hf : arguments.paramsFile = some path)
      (h : params? decoders files path = none)
  | assignment {input : Text} {fault : AssignmentFault} (hi : input ∈ arguments.assignments)
      (h : Assignment.read input = .error fault)

theorem configAt?_eq_none_iff {path : Text} :
    configAt? decoders files path = none ↔
      files.present path ∧ config? decoders files path = none := by
  unfold configAt?
  split
  · next hp => simp [hp]
  · next hp => simp [hp]

-- The configuration that is not there names no file.
theorem config?_eq_some_of_paramsFile {path file : Text} {config : Option Config}
    (h : configAt? decoders files path = some config)
    (hf : (Layers.settingsOf config).paramsFile = some file) :
    files.present path ∧
      ∃ found, config? decoders files path = some found ∧ found.settings.paramsFile = some file := by
  unfold configAt? at h
  split at h
  · next hp =>
    obtain ⟨found, hfound, rfl⟩ := Option.map_eq_some_iff.1 h
    exact ⟨hp, found, hfound, hf⟩
  · cases h
    cases hf

theorem paramsOf?_eq_none_iff {path? : Option Text} :
    paramsOf? decoders files path? = none ↔
      ∃ path, path? = some path ∧ params? decoders files path = none := by
  cases path? with
  | none => simp [paramsOf?]
  | some path => simp [paramsOf?]

namespace Layers

-- The parameters are merged while the layers are loaded: those of the configuration and its file
-- first, then those of the command line.
theorem map_load? :
    (load? decoders files arguments).map (fun layers => (layers.settings, layers.params)) =
      ((configAt? decoders files arguments.config).bind fun config =>
        (paramsOf? decoders files
          ((settingsOf config).paramsFile.map (resolve arguments.config))).map fun more =>
            (settingsOf config, (paramsOf config).merge more)).bind fun configured =>
        ((paramsOf? decoders files arguments.paramsFile).bind fun file =>
          (assigned? arguments.assignments).map (configured.2.merge file).insertAll).map
            (Prod.mk configured.1) := by
  simp [load?, settings, params, Option.map_eq_bind, Option.bind_assoc]

theorem assigned?_cons (input : Text) (inputs : List Text) :
    assigned? (input :: inputs) = (Assignment.read input).toOption.bind fun assigned =>
      (assigned? inputs).map (assigned :: ·) := by
  rw [assigned?, List.mapM_cons]
  cases (Assignment.read input).toOption with
  | none => rfl
  | some assigned => exact Option.map_eq_bind.symm

theorem assigned?_eq_none_iff {inputs : List Text} :
    assigned? inputs = none ↔ ∃ input ∈ inputs, ∃ fault, Assignment.read input = .error fault := by
  induction inputs with
  | nil => simp [assigned?]
  | cons input inputs ih =>
    rw [assigned?_cons, List.exists_mem_cons_iff, ← ih]
    cases Assignment.read input with
    | error fault => simp [Except.toOption]
    | ok assigned => simp [Except.toOption]

-- Loading ends at a layer exactly if that layer fails.
theorem load?_eq_none_iff :
    load? decoders files arguments = none ↔ LayerFails decoders files arguments := by
  constructor
  · intro h
    cases hc : configAt? decoders files arguments.config with
    | none =>
      obtain ⟨hp, hc⟩ := configAt?_eq_none_iff.1 hc
      exact .config hp hc
    | some config =>
      cases hm : paramsOf? decoders files
          ((settingsOf config).paramsFile.map (resolve arguments.config)) with
      | none =>
        obtain ⟨path, hpath, hm⟩ := paramsOf?_eq_none_iff.1 hm
        obtain ⟨file, hfile, rfl⟩ := Option.map_eq_some_iff.1 hpath
        obtain ⟨hp, found, hfound, hfile⟩ := config?_eq_some_of_paramsFile hc hfile
        exact .configFile hp hfound hfile hm
      | some configFile =>
        cases hf : paramsOf? decoders files arguments.paramsFile with
        | none =>
          obtain ⟨path, hpath, hf⟩ := paramsOf?_eq_none_iff.1 hf
          exact .file hpath hf
        | some file =>
          cases ha : assigned? arguments.assignments with
          | none =>
            obtain ⟨input, hi, fault, hr⟩ := assigned?_eq_none_iff.1 ha
            exact .assignment hi hr
          | some assigned => simp [load?, hc, hm, hf, ha] at h
  · simp only [load?, Option.bind_eq_bind, Option.bind_eq_none_iff]
    rintro (⟨hp, h⟩ | ⟨hp, hc, hf, h⟩ | ⟨hf, h⟩ | ⟨hi, h⟩) config hconfig more hmore file hfile
    · simp [configAt?_eq_none_iff.2 ⟨hp, h⟩] at hconfig
    · simp only [configAt?, if_pos hp, hc, Option.map_some, Option.some.injEq] at hconfig
      cases hconfig
      simp [settingsOf, hf, paramsOf?, h] at hmore
    · simp [hf, paramsOf?, h] at hfile
    · simp [assigned?_eq_none_iff.2 ⟨_, hi, _, h⟩]

end Layers

section Finding

variable {σ : Type} (host : Host σ) (decoders : Decoders)

theorem finds_readParamsFile (path : Text) (s : Process σ) :
    (readParamsFile decoders path).Finds host s [] (params? decoders (host.files s.disk) path) := by
  refine (finds_readFile (.readParams path) path s).bind fun t => ?_
  cases paramsReader? decoders path with
  | none => exact finds_throw _ _
  | some read => exact finds_orFail _ _ _

theorem finds_readConfig (path : Text) (s : Process σ) :
    (readConfig decoders path).Finds host s [] (config? decoders (host.files s.disk) path) :=
  (finds_readFile (.readConfig path) path s).bind fun _ => finds_orFail _ _ _

theorem finds_configParams (path : Text) (config : Config) (s : Process σ) :
    (configParams decoders path config).Finds host s []
      ((paramsOf? decoders (host.files s.disk)
        (config.settings.paramsFile.map (resolve path))).map config.params.merge) := by
  unfold configParams
  cases config.settings.paramsFile with
  | none => exact finds_pure config.params s
  | some file => exact (finds_readParamsFile host decoders (resolve path file) s).map _

theorem finds_loadConfig (path : Text) (s : Process σ) :
    (loadConfig decoders path).Finds host s (loadEvents decoders (host.files s.disk) path)
      ((configAt? decoders (host.files s.disk) path).bind fun config =>
        (paramsOf? decoders (host.files s.disk)
          ((Layers.settingsOf config).paramsFile.map (resolve path))).map fun more =>
            (Layers.settingsOf config, (Layers.paramsOf config).merge more)) := by
  unfold loadConfig loadEvents configAt?
  refine finds_bind_of_ok (outcome_isPresent path s) ?_
  split
  · obtain ⟨result, hread, hr⟩ := finds_readConfig host decoders path s
    rw [Process.told_nil] at hread
    rw [← hr]
    cases result with
    | error failure => exact finds_of_outcome (outcome_bind_of_error hread _)
    | ok config =>
      have hparams := (finds_configParams host decoders path config
        (s.told host [.loadedConfig path config.params.size])).map (Prod.mk config.settings)
      rw [Option.map_map] at hparams
      exact finds_bind_of_ok hread (finds_log_bind hparams)
  · exact finds_pure _ s

theorem finds_assign (params : Map Value) (inputs : List Text) (s : Process σ) :
    (assign params inputs).Finds host s [] ((Layers.assigned? inputs).map params.insertAll) := by
  induction inputs generalizing params s with
  | nil => exact finds_pure params s
  | cons input inputs ih =>
    have hstep : (assign params (input :: inputs)).Finds host s []
        ((Assignment.read input).toOption.bind fun assigned =>
          (Layers.assigned? inputs).map (params.insert assigned.1 assigned.2).insertAll) :=
      (finds_orFail (.assignment input) (Assignment.read input) s).bind fun assigned =>
        ih (params.insert assigned.1 assigned.2) (s.told host [])
    rw [Layers.assigned?_cons, Option.map_bind]
    simp only [Function.comp_def, Option.map_map]
    exact hstep

theorem finds_gatherParams (arguments : RenderArguments) (configured : Map Value)
    (s : Process σ) :
    (gatherParams decoders arguments configured).Finds host s []
      ((paramsOf? decoders (host.files s.disk) arguments.paramsFile).bind fun file =>
        (Layers.assigned? arguments.assignments).map (configured.merge file).insertAll) := by
  unfold gatherParams
  cases arguments.paramsFile with
  | none => exact finds_assign host (configured.merge .empty) arguments.assignments s
  | some path =>
    exact (finds_readParamsFile host decoders path s).bind fun file =>
      finds_assign host (configured.merge file) arguments.assignments (s.told host [])

-- Loading follows the layers, each of them once, and ends where one cannot be read.
theorem finds_loadParams (arguments : RenderArguments) (s : Process σ) :
    (loadParams decoders arguments).Finds host s
      (loadEvents decoders (host.files s.disk) arguments.config)
      ((Layers.load? decoders (host.files s.disk) arguments).map fun layers =>
        (layers.settings, layers.params)) := by
  rw [Layers.map_load?]
  exact (finds_loadConfig host decoders arguments.config s).bind fun configured =>
    (finds_gatherParams host decoders arguments configured.2 (s.told host _)).map
      (Prod.mk configured.1)

end Finding

variable {σ : Type} {host : Host σ} {s : Process σ}

theorem outcome_loadParams (h : Layers.load? decoders (host.files s.disk) arguments = some layers) :
    (loadParams decoders arguments).outcome host s =
      (.ok (layers.settings, layers.params),
        s.told host (loadEvents decoders (host.files s.disk) arguments.config)) := by
  obtain ⟨result, ho, hr⟩ := finds_loadParams host decoders arguments s
  rw [h] at hr
  cases result with
  | error failure => cases hr
  | ok found =>
    cases hr
    exact ho

theorem outcome_runRender_of_layerFails (h : LayerFails decoders (host.files s.disk) arguments) :
    ∃ failure, (runRender decoders arguments).outcome host s =
      (.error failure, s.told host (loadEvents decoders (host.files s.disk) arguments.config)) := by
  obtain ⟨result, ho, hr⟩ := finds_loadParams host decoders arguments s
  rw [Layers.load?_eq_none_iff.2 h] at hr
  cases result with
  | error failure => exact ⟨failure, outcome_bind_of_error ho _⟩
  | ok found => cases hr

-- Where every layer can be read, the template is rendered with one table, in which a name has the
-- value of the strongest layer that knows it, the whole of it, and which holds nothing else. Where a
-- layer cannot be read the render fails, whatever the layers above it say. The disk and the readers of
-- documents may be any.
theorem params_by_layer (host : Host σ) (decoders : Decoders) (s : Process σ)
    (arguments : RenderArguments) :
    let files := host.files s.disk
    let loaded := s.told host (loadEvents decoders files arguments.config)
    (∀ layers, Layers.load? decoders files arguments = some layers →
      (loadParams decoders arguments).outcome host s =
        (.ok (layers.settings, layers.params), loaded) ∧
      (runRender decoders arguments).outcome host s =
        (renderTemplate arguments layers.settings layers.params).outcome host loaded ∧
      ∀ name, layers.params.get? name = layers.get? name ∧
        ∀ value, (name, value) ∈ layers.params.entries ↔ layers.get? name = some value) ∧
    (Layers.load? decoders files arguments = none ↔ LayerFails decoders files arguments) ∧
    (LayerFails decoders files arguments → ∃ failure,
      (runRender decoders arguments).outcome host s = (.error failure, loaded)) := by
  intro files loaded
  refine ⟨fun layers h => ⟨outcome_loadParams h, ?_, fun name => ?_⟩, Layers.load?_eq_none_iff,
    outcome_runRender_of_layerFails⟩
  · exact outcome_bind_of_ok (outcome_loadParams h) _
  · refine ⟨Layers.get?_params layers name, fun value => ?_⟩
    rw [Map.mem_entries_iff, Layers.get?_params]

-- A name known to all layers, one known to the files only, one known to the configuration and its
-- file, one known to the configuration alone, and one that nobody knows. Then the configuration's
-- file is gone, though none of its names would have counted.
theorem params_by_layer_five :
    let config := "version = \x221\x22\n[render]\nparams_file = \x22more.json\x22\n".toList ++
      "[params]\na = 1\nb = 1\nc = 1\nd = 1\n".toList
    let more := "\x7b\x22a\x22: 2, \x22b\x22: 2, \x22c\x22: 2\x7d".toList
    let given := "a = 3\nb = 3\n".toList
    let file (t : Text) : FileNode := .file (String.ofList t).toUTF8
    let root (configFile : List (Text × FileNode)) : FileNode.Entries :=
      [("etc".toList, .directory (("app.toml".toList, file config) :: configFile)),
        ("home".toList, .directory [("given.toml".toList, file given)])]
    let arguments : RenderArguments :=
      ⟨"/etc/app.toml".toList, none, ["a=4".toList, "a=5".toList], some "../home/given.toml".toList,
        true, false, false⟩
    let host := FileTree.host none fun _ => Event.line
    let whole : Process FileTree :=
      .start ⟨root [("more.json".toList, file more)], ["home".toList]⟩ (.ok .empty)
    let partly : Process FileTree := .start ⟨root [], ["home".toList]⟩ (.ok .empty)
    (∃ params,
      (loadParams .standard arguments).outcome host whole =
        (.ok (⟨true, false, some "more.json".toList⟩, params),
          whole.told host [.loadedConfig "/etc/app.toml".toList 4]) ∧
      ["a", "b", "c", "d", "e"].map (fun name => (params.get? name.toList).map Value.toText) =
        [some ['5'], some ['3'], some ['2'], some ['1'], none]) ∧
    ∃ failure,
      (runRender .standard arguments).outcome host partly =
        (.error failure, partly.told host [.loadedConfig "/etc/app.toml".toList 4]) := by
  intro config more given file root arguments host whole partly
  have hvalues : (Layers.load? .standard (host.files whole.disk) arguments).map (fun layers =>
      (layers.settings,
        ["a", "b", "c", "d", "e"].map fun name => (layers.get? name.toList).map Value.toText)) =
        some (⟨true, false, some "more.json".toList⟩,
          [some ['5'], some ['3'], some ['2'], some ['1'], none]) := by decide +kernel
  obtain ⟨layers, hload, hvalues⟩ := Option.map_eq_some_iff.1 hvalues
  obtain ⟨hsettings, hvalues⟩ := Prod.mk.inj hvalues
  obtain ⟨hloaded, -, hget⟩ := (params_by_layer host .standard whole arguments).1 layers hload
  have hevents : loadEvents .standard (host.files whole.disk) arguments.config =
      [.loadedConfig "/etc/app.toml".toList 4] := by decide +kernel
  refine ⟨⟨layers.params, ?_, ?_⟩, ?_⟩
  · rw [hloaded, hsettings, hevents]
  · rw [← hvalues]
    exact List.map_congr_left fun name _ => by rw [(hget name.toList).1]
  · have hfails : Layers.load? .standard (host.files partly.disk) arguments = none :=
      Option.isNone_iff_eq_none.1 (by decide +kernel)
    have htold : loadEvents .standard (host.files partly.disk) arguments.config =
        [.loadedConfig "/etc/app.toml".toList 4] := by decide +kernel
    rw [← htold]
    exact (params_by_layer host .standard partly arguments).2.2 (Layers.load?_eq_none_iff.1 hfails)

end SqlPreview.Command
