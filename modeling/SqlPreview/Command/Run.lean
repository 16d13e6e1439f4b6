import SqlPreview.Command.Decoders
import SqlPreview.Command.Failure
import SqlPreview.Command.Help
import SqlPreview.Command.Path
import SqlPreview.Statement.Finding
import SqlPreview.Template.Expansion

namespace SqlPreview.Command

abbrev Attempt (α : Type) := ExceptT Failure Dialogue α

namespace Attempt

def ask (request : Request) : Attempt request.Answer :=
  ExceptT.lift (Dialogue.request request)

-- An answer that may be a fault, which then becomes a failure.
def orFail {ε α : Type} (failure : ε → Failure) : Except ε α → Attempt α
  | .ok a => pure a
  | .error fault => throw (failure fault)

def isPresent (path : Text) : Attempt Bool :=
  ask (.present path)

def readFile (failure : FileFault → Failure) (path : Text) : Attempt Text := do
  orFail failure (← ask (.readFile path))

def startLog (isVerbose : Bool) : Attempt Unit :=
  ask (.startLog isVerbose)

def log (event : Event) : Attempt Unit :=
  ask (.log event)

def logAll (events : List Event) : Attempt Unit :=
  events.forM log

def print (t : Text) : Attempt Unit :=
  ask (.print t)

def warn (line : Text) : Attempt Unit :=
  ask (.warn (line ++ ['\n']))

end Attempt

open Attempt

def readTemplate : Option Text → Attempt Text
  | some path => readFile (.readTemplate path) path
  | none => do orFail .readInput (← ask .readInput)

section Loading

variable (decoders : Decoders)

-- The formats of parameter files, told by the extension.
def paramsReader? (path : Text) : Option (Text → Except Text (Map Value)) :=
  match Path.extension? path with
  | some extension =>
    if extension = "json".toList then some decoders.json
    else if extension = "toml".toList then some decoders.toml
    else none
  | none => none

-- Reads a parameter file. It must be readable even if its format is not known.
def readParamsFile (path : Text) : Attempt (Map Value) := do
  let content ← readFile (.readParams path) path
  match paramsReader? decoders path with
  | none => throw (.unsupportedParams path)
  | some read => orFail (.malformedParams path) (read content)

def configFailure (path : Text) : ConfigFault → Failure
  | .malformed words => .malformedConfig path words
  | .version found => .configVersion path found

def readConfig (path : Text) : Attempt Config := do
  orFail (configFailure path) (decoders.readConfig (← readFile (.readConfig path) path))

-- A path of a configuration, which is relative to its directory.
def resolve (config path : Text) : Text :=
  Path.join ((Path.parent? config).getD ['.']) path

-- The parameters of a configuration and then those of the file that it names.
def configParams (path : Text) (config : Config) : Attempt (Map Value) := do
  match config.settings.paramsFile with
  | some file => return config.params.merge (← readParamsFile decoders (resolve path file))
  | none => pure config.params

-- The settings and parameters of a configuration, if there is one.
def loadConfig (path : Text) : Attempt (Settings × Map Value) := do
  if ← isPresent path then
    let config ← readConfig decoders path
    log (.loadedConfig path config.params.size)
    return (config.settings, ← configParams decoders path config)
  else
    return (.default, .empty)

def assign (params : Map Value) : List Text → Attempt (Map Value)
  | [] => pure params
  | input :: rest => do
    let (name, value) ← orFail (.assignment input) (Assignment.read input)
    assign (params.insert name value) rest

-- The parameters of a render, from the weakest layer to the strongest.
def gatherParams (arguments : RenderArguments) (configured : Map Value) :
    Attempt (Map Value) := do
  let given ← match arguments.paramsFile with
    | some path => readParamsFile decoders path
    | none => pure .empty
  assign (configured.merge given) arguments.assignments

-- The settings of a render, and its parameters from all layers.
def loadParams (arguments : RenderArguments) : Attempt (Settings × Map Value) := do
  let (settings, configured) ← loadConfig decoders arguments.config
  return (settings, ← gatherParams decoders arguments configured)

end Loading

-- Does a render pass? Errors never do; warnings do not if they are denied.
def passes (denyWarnings : Bool) (issues : List Issue) (findings : List Statement.Finding) : Bool :=
  !(findings.any (·.isError) ||
    (denyWarnings && (!issues.isEmpty || findings.any (·.isWarning))))

-- Told if a template asks for names that have no value.
def missingEvents (template : Template) (params : Params) : List Event :=
  match template.names.filter fun name => (params.get? name).isNone with
  | [] => []
  | missing => [.missing missing]

-- Shows a template rendered, with its issues and findings beside it.
def showRender (lint denyWarnings : Bool) (template : Template) (params : Params) :
    Attempt Unit := do
  logAll (template.issueEvents ++ missingEvents template params)
  template.issues.forM fun issue => warn ("warning: ".toList ++ issue.message)
  let rendered := template.rendered params
  logAll rendered.events
  print (rendered.text ++ ['\n'])
  let findings := if lint then Statement.findings rendered.text else []
  findings.forM fun finding => warn finding.line
  if passes denyWarnings template.issues findings then pure () else throw .checkFailed

-- A blank template counts as none.
def renderTemplate (arguments : RenderArguments) (settings : Settings) (params : Map Value) :
    Attempt Unit := do
  let source ← readTemplate arguments.file
  if Text.allBlank source then throw .noTemplate
  else
    showRender (arguments.lint && settings.lint) (arguments.denyWarnings || settings.denyWarnings)
      (Template.parse source) params.entries

def runRender (decoders : Decoders) (arguments : RenderArguments) : Attempt Unit := do
  let (settings, params) ← loadParams decoders arguments
  renderTemplate arguments settings params

def runParams (file : Option Text) : Attempt Unit := do
  let source ← readTemplate file
  print ((Placeholder.names source).flatMap (· ++ ['\n']))

-- Writes a configuration where there is nothing yet.
def runInit (path : Text) : Attempt Unit := do
  if ← isPresent path then throw (.overwrite path)
  match Path.parent? path with
  | some (c :: directory) =>
    orFail (.makeDirectory (c :: directory)) (← ask (.makeDirectories (c :: directory)))
  | _ => pure ()
  orFail (.write path) (← ask (.writeFile path configTemplate))
  print ("wrote ".toList ++ path ++ ['\n'])

def Arguments.run (decoders : Decoders) : Arguments → Attempt Unit
  | .help topic => print (helpText topic)
  | .params file => do
    startLog false
    runParams file
  | .render arguments => do
    startLog arguments.verbose
    runRender decoders arguments
  | .init config => runInit config

def run (words : List Text) (decoders : Decoders := .standard) : Attempt Unit := do
  (← orFail .arguments (read words)).run decoders

-- The exit code of a command. A failure is told at the very end.
def conclude : Except Failure Unit → Dialogue UInt32
  | .ok _ => return 0
  | .error failure => do
    Dialogue.request (.warn failure.line)
    return 1

def program (words : List Text) (decoders : Decoders := .standard) : Dialogue UInt32 := do
  conclude (← (run words decoders).run)

end SqlPreview.Command
