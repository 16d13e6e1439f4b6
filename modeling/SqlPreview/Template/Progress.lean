import SqlPreview.Template.Chunk
import SqlPreview.Template.Issue
import SqlPreview.Template.Node

namespace SqlPreview

-- An open block: its tag, the place of the tag, and the nodes before the block on its own level,
-- last first.
structure OpenBlock where
  head : Block.Head
  tag : Text
  offset : Nat
  before : List Node

namespace OpenBlock

-- The block with its body, put behind the nodes before it.
def close (block : OpenBlock) (closeTag : Text) (body : List Node) : List Node :=
  .block block.head block.tag closeTag body.reverse :: block.before

-- The block given up: its tag and its body go on as nodes of its own level.
def giveUp (block : OpenBlock) (body : List Node) : List Node :=
  body.foldr Node.push (Node.pushText block.tag block.before)

def unclosed (block : OpenBlock) : Issue :=
  ⟨.unclosed, block.tag, block.offset⟩

end OpenBlock

-- A template read up to some place: the offset of the place, the nodes of the innermost open
-- block, last first, the open blocks, innermost first, and the issues found, last first.
structure Progress where
  offset : Nat
  nodes : List Node
  blocks : List OpenBlock
  issues : List Issue

namespace Progress

def start : Progress :=
  ⟨0, [], [], []⟩

-- The nearest open block of a kind, found by giving up the blocks inside it.
def nearest? (kind : Block.Kind) :
    (blocks : List OpenBlock) → (nodes : List Node) → (issues : List Issue) →
      Option (OpenBlock × List OpenBlock × List Node × List Issue)
  | [], _, _ => none
  | block :: blocks, nodes, issues =>
    if block.head.kind = kind then some (block, blocks, nodes, issues)
    else nearest? kind blocks (block.giveUp nodes) (block.unclosed :: issues)

-- The issue of an opening tag that is never expanded.
def headIssue (head : Block.Head) (tag : Text) (offset : Nat) : List Issue :=
  match head with
  | .loop header => if header.item.isNone then [⟨.withoutItem, tag, offset⟩] else []
  | _ => []

-- A closing tag without an open block of its kind becomes text.
def step (progress : Progress) (chunk : Chunk) : Progress :=
  let offset := progress.offset + Text.byteLength chunk.toText
  match chunk with
  | .text t => { progress with offset, nodes := Node.pushText t progress.nodes }
  | .tag ⟨text, .opens head⟩ =>
    { offset
      nodes := []
      blocks := ⟨head, text, progress.offset, progress.nodes⟩ :: progress.blocks
      issues := headIssue head text progress.offset ++ progress.issues }
  | .tag ⟨text, .closes kind⟩ =>
    match nearest? kind progress.blocks progress.nodes progress.issues with
    | some (block, blocks, nodes, issues) =>
      { offset, nodes := block.close text nodes, blocks, issues }
    | none =>
      { progress with
        offset
        nodes := Node.pushText text progress.nodes
        issues := ⟨.unopened, text, progress.offset⟩ :: progress.issues }

def giveUpAll : (blocks : List OpenBlock) → (nodes : List Node) → (issues : List Issue) →
    List Node × List Issue
  | [], nodes, issues => (nodes, issues)
  | block :: blocks, nodes, issues =>
    giveUpAll blocks (block.giveUp nodes) (block.unclosed :: issues)

-- The tree, and the issues in the order of their places.
def finish (progress : Progress) : List Node × List Issue :=
  let (nodes, issues) := giveUpAll progress.blocks progress.nodes progress.issues
  (nodes.reverse, issues.reverse.mergeSort fun one other => one.offset ≤ other.offset)

end Progress

end SqlPreview
