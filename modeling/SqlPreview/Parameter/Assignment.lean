import SqlPreview.Parameter.Name
import SqlPreview.Parameter.Value

namespace SqlPreview

inductive AssignmentFault where
  | noEquals
  | badName (name : Text)
deriving DecidableEq, Repr

namespace AssignmentFault

def detail : AssignmentFault → Text
  | noEquals => "expected name=value".toList
  | badName name => '\x27' :: name ++ "\x27 is not a valid parameter name".toList

-- The fault with the text that has it.
def message (input : Text) (fault : AssignmentFault) : Text :=
  "Invalid parameter \x27".toList ++ input ++ "\x27: ".toList ++ fault.detail

end AssignmentFault

namespace Assignment

-- Reads a name, which may have blanks around it, and its value. The value is all that follows the
-- first equals sign, unchanged.
def read (input : Text) : Except AssignmentFault (Text × Value) :=
  match input.dropWhile (· != '=') with
  | [] => .error .noEquals
  | _ :: value =>
    let name := Text.trim (input.takeWhile (· != '='))
    if Name.isName name then .ok (name, .text value) else .error (.badName name)

end Assignment

end SqlPreview
