import SqlPreview.Parameter.Assignment
import SqlPreview.Command.Arguments
import SqlPreview.Command.Dialogue

namespace SqlPreview.Command

inductive Failure where
  | arguments (fault : ArgumentFault)
  | readTemplate (path : Text) (fault : FileFault)
  | readInput (fault : FileFault)
  | noTemplate
  | readConfig (path : Text) (fault : FileFault)
  | malformedConfig (path words : Text)
  | configVersion (path found : Text)
  | readParams (path : Text) (fault : FileFault)
  | unsupportedParams (path : Text)
  | malformedParams (path words : Text)
  | assignment (input : Text) (fault : AssignmentFault)
  | checkFailed
  | overwrite (path : Text)
  | makeDirectory (path : Text) (fault : FileFault)
  | write (path : Text) (fault : FileFault)
deriving DecidableEq, Repr

namespace Failure

-- A message about a path: words, the path, a colon, and the cause.
def about (words : String) (path cause : Text) : Text :=
  words.toList ++ ' ' :: path ++ ": ".toList ++ cause

-- Words of a decoder behind a colon, if it has any.
def behindColon : Text → Text
  | [] => [':']
  | words => ": ".toList ++ words

def message : Failure → Text
  | arguments fault => fault.message
  | readTemplate path fault => about "failed to read" path fault.message
  | readInput fault => about "failed to read" "stdin".toList fault.message
  | noTemplate => "no template provided (pass a file or pipe SQL to stdin)".toList
  | readConfig path fault => about "failed to read config file" path fault.message
  | malformedConfig path words =>
    "failed to parse config file ".toList ++ path ++ behindColon words
  | configVersion path found =>
    about "failed to parse config file" path
      ("unsupported config version: ".toList ++ found ++ " (expected \x221\x22)".toList)
  | readParams path fault => about "failed to read params file" path fault.message
  | unsupportedParams path =>
    "unsupported params file ".toList ++ path ++ " (expected .json or .toml)".toList
  | malformedParams path words =>
    about "failed to load params file" path ("Serialization error".toList ++ behindColon words)
  | assignment input fault => fault.message input
  | checkFailed => "render check failed".toList
  | overwrite path => "refusing to overwrite existing file: ".toList ++ path
  | makeDirectory path fault => about "failed to create directory" path fault.message
  | write path fault => about "failed to write" path fault.message

-- How the program tells of a failure before it ends.
def line (failure : Failure) : Text :=
  failure.message ++ ['\n']

end Failure

end SqlPreview.Command
