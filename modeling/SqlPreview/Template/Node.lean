import SqlPreview.Template.Tag

namespace SqlPreview

-- A text, or a block with its two tags as they are written.
inductive Node where
  | text (t : Text)
  | block (head : Block.Head) (openTag closeTag : Text) (body : List Node)

namespace Node

mutual

def print : Node → Text
  | text t => t
  | block _ openTag closeTag body => openTag ++ (printAll body ++ closeTag)

def printAll : List Node → Text
  | [] => []
  | node :: rest => print node ++ printAll rest

end

mutual

def blockCount : Node → Nat
  | text _ => 0
  | block _ _ _ body => 1 + blockCountAll body

def blockCountAll : List Node → Nat
  | [] => 0
  | node :: rest => blockCount node + blockCountAll rest

end

-- Puts a text behind nodes given last first. Texts that meet become one, and an empty text leaves
-- nothing.
def pushText (t : Text) : List Node → List Node
  | [] => if t = [] then [] else [text t]
  | node :: before =>
    if t = [] then node :: before
    else
      match node with
      | text s => text (s ++ t) :: before
      | node => text t :: node :: before

-- Puts a node behind nodes given last first.
def push (node : Node) (before : List Node) : List Node :=
  match node with
  | text t => pushText t before
  | node => node :: before

end Node

end SqlPreview
