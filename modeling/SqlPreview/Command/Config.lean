import SqlPreview.Parameter.Value

namespace SqlPreview

-- The settings of a render that a configuration may change. The path of the parameter file is
-- relative to the configuration.
structure Settings where
  lint : Bool
  denyWarnings : Bool
  paramsFile : Option Text
deriving DecidableEq, Repr

def Settings.default : Settings := ⟨true, false, none⟩

structure Config where
  version : Text
  settings : Settings
  params : Map Value

namespace Settings

def names : List Text :=
  ["lint".toList, "deny_warnings".toList, "params_file".toList]

def bool? : Value → Option Bool
  | .bool b => some b
  | _ => none

def text? : Value → Option Text
  | .text t => some t
  | _ => none

-- An entry that may be missing, but may not be of another type.
def entry? {α : Type} (read? : Value → Option α) (name : Text) (fields : Table Value) :
    Option (Option α) :=
  match fields.get? name with
  | some value => (read? value).map some
  | none => some none

-- Settings are a table. A list of all three in the order of their names does as well.
def ofValue? : Value → Option Settings
  | .record fields => do
    if fields.all (fun field => names.contains field.1) then
      let lint ← entry? bool? "lint".toList fields
      let denyWarnings ← entry? bool? "deny_warnings".toList fields
      let paramsFile ← entry? text? "params_file".toList fields
      return ⟨lint.getD default.lint, denyWarnings.getD default.denyWarnings, paramsFile⟩
    else none
  | .list (.bool lint :: .bool denyWarnings :: .text paramsFile :: _) =>
    some ⟨lint, denyWarnings, some paramsFile⟩
  | _ => none

end Settings

namespace Config

def names : List Text :=
  ["version".toList, "render".toList, "params".toList]

-- The only version of a configuration that is read.
def supported : Text := ['1']

def record? : Value → Option (Map Value)
  | .record fields => some (.ofPairs fields)
  | _ => none

-- The configuration that the entries of a document write. Entries of other names are refused.
def ofFields? (fields : Table Value) : Option Config := do
  if fields.all (fun field => names.contains field.1) then
    let version ← (← Settings.entry? Settings.text? "version".toList fields)
    let settings ← Settings.entry? Settings.ofValue? "render".toList fields
    let params ← Settings.entry? record? "params".toList fields
    return ⟨version, settings.getD .default, params.getD .empty⟩
  else none

end Config

end SqlPreview
