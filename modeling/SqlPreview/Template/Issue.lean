import SqlPreview.Text.Basic

namespace SqlPreview

inductive Issue.Kind where
  | unclosed
  | unopened
  | withoutItem
deriving DecidableEq, Repr

-- A tag that is out of place, with the offset of its first byte in the template.
structure Issue where
  kind : Issue.Kind
  tag : Text
  offset : Nat
deriving DecidableEq, Repr

namespace Issue

def Kind.message : Kind → Text
  | unclosed => "unclosed tag".toList
  | unopened => "close tag without open tag".toList
  | withoutItem => "foreach without item attribute".toList

def message (issue : Issue) : Text :=
  issue.kind.message ++ ' ' :: issue.tag ++ " at byte ".toList ++ Nat.toDigits 10 issue.offset

end Issue

end SqlPreview
