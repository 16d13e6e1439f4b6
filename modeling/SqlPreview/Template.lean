import SqlPreview.Template.Progress

namespace SqlPreview

structure Template where
  source : Text
  nodes : List Node
  issues : List Issue

namespace Template

def chunks (source : Text) : List Chunk :=
  Chunk.ofPieces (Tag.mark.scan source)

-- Every source is a template.
def parse (source : Text) : Template :=
  let (nodes, issues) := ((chunks source).foldl Progress.step Progress.start).finish
  { source, nodes, issues }

-- The names of the placeholders, in the order of their first places.
def names (template : Template) : List Text :=
  Placeholder.names template.source

def blockCount (template : Template) : Nat :=
  Node.blockCountAll template.nodes

end Template

end SqlPreview
