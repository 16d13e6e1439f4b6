import SqlPreview.Template.Tag

namespace SqlPreview

-- A stretch of a template: text between tags, or a tag.
inductive Chunk where
  | text (t : Text)
  | tag (tag : Tag)
deriving DecidableEq, Repr

namespace Chunk

-- Characters between tags are put together.
def ofPieces : List (Piece Tag) → List Chunk
  | [] => []
  | .mark found :: pieces => .tag found :: ofPieces pieces
  | .char c :: pieces =>
    match ofPieces pieces with
    | .text t :: chunks => .text (c :: t) :: chunks
    | chunks => .text [c] :: chunks

def toText : Chunk → Text
  | text t => t
  | tag found => found.text

end Chunk

end SqlPreview
