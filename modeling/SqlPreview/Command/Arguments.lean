import SqlPreview.Text.Basic

namespace SqlPreview.Command

-- What the command line tells a render. Without a file the template comes from the standard
-- input. Assignments are kept as they are written, in their order.
structure RenderArguments where
  config : Text
  file : Option Text
  assignments : List Text
  paramsFile : Option Text
  lint : Bool
  denyWarnings : Bool
  verbose : Bool
deriving DecidableEq, Repr

inductive Topic where
  | root
  | params
  | render
  | init
deriving DecidableEq, Repr

inductive Arguments where
  | help (topic : Topic)
  | params (file : Option Text)
  | render (arguments : RenderArguments)
  | init (config : Text)
deriving DecidableEq, Repr

inductive Setting where
  | config
  | param
  | params
deriving DecidableEq, Repr

inductive Flag where
  | noLint
  | denyWarnings
  | verbose
deriving DecidableEq, Repr

inductive ArgumentFault where
  | unknownCommand (word : Text)
  | unknownArgument (word : Text)
  | extraFile (word : Text)
  | missingValue (setting : Setting)
deriving DecidableEq, Repr

def Setting.name : Setting → Text
  | config => "--config".toList
  | param => "--param".toList
  | params => "--params".toList

def ArgumentFault.message : ArgumentFault → Text
  | unknownCommand word => "unknown command: ".toList ++ word
  | unknownArgument word => "unknown argument: ".toList ++ word
  | extraFile word => "unexpected extra file: ".toList ++ word
  | missingValue setting => setting.name ++ " requires a value".toList

def defaultConfig : Text := "sqlpeek.toml".toList

namespace RenderArguments

def default : RenderArguments where
  config := defaultConfig
  file := none
  assignments := []
  paramsFile := none
  lint := true
  denyWarnings := false
  verbose := false

-- Of several files of one kind the last one counts; assignments add up.
def set (setting : Setting) (value : Text) (arguments : RenderArguments) : RenderArguments :=
  match setting with
  | .config => { arguments with config := value }
  | .param => { arguments with assignments := arguments.assignments ++ [value] }
  | .params => { arguments with paramsFile := some value }

def raise (flag : Flag) (arguments : RenderArguments) : RenderArguments :=
  match flag with
  | .noLint => { arguments with lint := false }
  | .denyWarnings => { arguments with denyWarnings := true }
  | .verbose => { arguments with verbose := true }

-- A dash stands for the standard input.
def finish (arguments : RenderArguments) : RenderArguments :=
  { arguments with file := arguments.file.filter (· != ['-']) }

end RenderArguments

inductive Word where
  | help
  | wants (setting : Setting)
  | gives (setting : Setting) (value : Text)
  | flag (flag : Flag)
  | file (name : Text)
  | unknown
deriving DecidableEq, Repr

namespace Word

def helpWords : List Text :=
  ["-h".toList, "--help".toList]

def settingWords : List (Text × Setting) :=
  [(Setting.config.name, .config), (Setting.param.name, .param), ("-p".toList, .param),
    (Setting.params.name, .params)]

def flagWords : List (Text × Flag) :=
  [("--no-lint".toList, .noLint), ("--deny-warnings".toList, .denyWarnings),
    ("-v".toList, .verbose), ("--verbose".toList, .verbose)]

-- A setting and its value in one word. The name may be written several times over; the value
-- follows the last of them.
def joined? (setting : Setting) (word : Text) : Option Text :=
  let lead := setting.name ++ ['=']
  (Text.after? lead word).map (Text.dropRepeats lead)

def ofRender (word : Text) : Word :=
  if helpWords.contains word then help
  else
    match settingWords.lookup word, flagWords.lookup word with
    | some setting, _ => wants setting
    | none, some raised => flag raised
    | none, none =>
      match [Setting.config, .param, .params].findSome? fun setting =>
          (joined? setting word).map (gives setting) with
      | some word => word
      | none => if word.head? = some '-' ∧ word ≠ ['-'] then unknown else file word

end Word

def readRender (arguments : RenderArguments) : List Text → Except ArgumentFault Arguments
  | [] => .ok (.render arguments.finish)
  | word :: words =>
    match Word.ofRender word, words with
    | .help, _ => .ok (.help .render)
    | .wants setting, value :: words => readRender (arguments.set setting value) words
    | .wants setting, [] => .error (.missingValue setting)
    | .gives setting value, words => readRender (arguments.set setting value) words
    | .flag flag, words => readRender (arguments.raise flag) words
    | .file name, words =>
      if arguments.file.isNone then readRender { arguments with file := some name } words
      else .error (.extraFile name)
    | .unknown, _ => .error (.unknownArgument word)

-- Reads the arguments of a listing. A word with one dash is a file.
def readParams (file : Option Text) : List Text → Except ArgumentFault Arguments
  | [] => .ok (.params file)
  | word :: words =>
    if Word.helpWords.contains word then .ok (.help .params)
    else if (Text.after? "--".toList word).isSome then .error (.unknownArgument word)
    else if file.isNone then readParams (some word) words
    else .error (.extraFile word)

def readInit (config : Text) : List Text → Except ArgumentFault Arguments
  | [] => .ok (.init config)
  | word :: words =>
    if Word.helpWords.contains word then .ok (.help .init)
    else if word = Setting.config.name then
      match words with
      | value :: words => readInit value words
      | [] => .error (.missingValue .config)
    else
      match Word.joined? .config word with
      | some value => readInit value words
      | none => .error (.unknownArgument word)

-- Reads a command line without the name of the program.
def read : List Text → Except ArgumentFault Arguments
  | [] => .ok (.help .root)
  | word :: words =>
    if Word.helpWords.contains word then .ok (.help .root)
    else if word = "params".toList then readParams none words
    else if word = "render".toList then readRender .default words
    else if word = "init".toList then readInit defaultConfig words
    else .error (.unknownCommand word)

end SqlPreview.Command
