import SqlPreview.Proofs.Template.Tree
import SqlPreview.Proofs.Text.Mark

namespace SqlPreview

namespace Node

theorem printAll_reverse_pushText (t : Text) (before : List Node) :
    printAll (pushText t before).reverse = printAll before.reverse ++ t := by
  simpa only [expansion_none] using expansion_reverse_pushText ⟨[], .none, false⟩ t before

theorem printAll_reverse_push (node : Node) (before : List Node) :
    printAll (push node before).reverse = printAll before.reverse ++ print node := by
  cases node with
  | text t => exact printAll_reverse_pushText t before
  | block head openTag closeTag body => simp [push, print]

theorem printAll_reverse_foldr_push (nodes before : List Node) :
    printAll (nodes.foldr push before).reverse =
      printAll before.reverse ++ printAll nodes.reverse := by
  induction nodes with
  | nil => simp
  | cons node nodes ih =>
    rw [List.foldr_cons, printAll_reverse_push, ih, List.reverse_cons, printAll_append,
      List.append_assoc]
    simp only [printAll, List.append_nil]

end Node

namespace OpenBlock

-- What stands before the nodes of the innermost open block.
def lead : List OpenBlock → Text
  | [] => []
  | block :: blocks => lead blocks ++ (Node.printAll block.before.reverse ++ block.tag)

theorem printAll_reverse_giveUp (block : OpenBlock) (body : List Node) :
    Node.printAll (block.giveUp body).reverse =
      Node.printAll block.before.reverse ++ (block.tag ++ Node.printAll body.reverse) := by
  rw [giveUp, Node.printAll_reverse_foldr_push, Node.printAll_reverse_pushText, List.append_assoc]

theorem printAll_reverse_close (block : OpenBlock) (closeTag : Text) (body : List Node) :
    Node.printAll (block.close closeTag body).reverse =
      Node.printAll block.before.reverse ++
        (block.tag ++ (Node.printAll body.reverse ++ closeTag)) := by
  simp [close]

end OpenBlock

namespace Progress

-- The part of the source that has been read.
def text (progress : Progress) : Text :=
  OpenBlock.lead progress.blocks ++ Node.printAll progress.nodes.reverse

-- Giving up blocks on the way to the nearest one of a kind keeps the text.
theorem text_of_nearest? {kind : Block.Kind} {blocks blocks' : List OpenBlock}
    {nodes nodes' : List Node} {issues issues' : List Issue} {block : OpenBlock}
    (h : nearest? kind blocks nodes issues = some (block, blocks', nodes', issues')) :
    OpenBlock.lead (block :: blocks') ++ Node.printAll nodes'.reverse =
      OpenBlock.lead blocks ++ Node.printAll nodes.reverse := by
  induction blocks generalizing nodes issues with
  | nil => simp [nearest?] at h
  | cons first blocks ih =>
    simp only [nearest?] at h
    split at h
    · cases h
      rfl
    · rw [ih h, OpenBlock.printAll_reverse_giveUp]
      simp only [OpenBlock.lead, List.append_assoc]

theorem text_step (progress : Progress) (chunk : Chunk) :
    (progress.step chunk).text = progress.text ++ chunk.toText := by
  match chunk with
  | .text t => simp only [step, text, Chunk.toText, Node.printAll_reverse_pushText, List.append_assoc]
  | .tag ⟨tag, .opens head⟩ =>
    simp only [step, text, Chunk.toText, OpenBlock.lead, List.reverse_nil, Node.printAll_nil,
      List.append_nil, List.append_assoc]
  | .tag ⟨tag, .closes kind⟩ =>
    simp only [step, text, Chunk.toText]
    split
    · next block blocks nodes issues h =>
      rw [← text_of_nearest? h]
      simp only [OpenBlock.printAll_reverse_close, OpenBlock.lead, List.append_assoc]
    · simp only [Node.printAll_reverse_pushText, List.append_assoc]

theorem text_foldl_step (chunks : List Chunk) (progress : Progress) :
    (chunks.foldl step progress).text = progress.text ++ chunks.flatMap Chunk.toText := by
  induction chunks generalizing progress with
  | nil => simp
  | cons chunk chunks ih =>
    rw [List.foldl_cons, ih, text_step, List.flatMap_cons, List.append_assoc]

theorem printAll_giveUpAll (blocks : List OpenBlock) (nodes : List Node) (issues : List Issue) :
    Node.printAll (giveUpAll blocks nodes issues).1.reverse =
      OpenBlock.lead blocks ++ Node.printAll nodes.reverse := by
  induction blocks generalizing nodes issues with
  | nil => simp [giveUpAll, OpenBlock.lead]
  | cons block blocks ih =>
    rw [giveUpAll, ih, OpenBlock.printAll_reverse_giveUp]
    simp only [OpenBlock.lead, List.append_assoc]

-- The finished tree prints as what has been read.
theorem printAll_finish (progress : Progress) :
    Node.printAll progress.finish.1 = progress.text :=
  printAll_giveUpAll progress.blocks progress.nodes progress.issues

end Progress

namespace Chunk

-- Putting characters together keeps the text.
theorem flatMap_toText_ofPieces (pieces : List (Piece Tag)) :
    (ofPieces pieces).flatMap toText = pieces.flatMap (Piece.write Tag.text) := by
  induction pieces with
  | nil => rfl
  | cons piece pieces ih =>
    cases piece with
    | mark tag => simp only [ofPieces, List.flatMap_cons, toText, Piece.write, ih]
    | char c =>
      rw [List.flatMap_cons, ← ih]
      simp only [ofPieces, Piece.write]
      split <;> simp_all [toText]

end Chunk

namespace Template

theorem flatMap_toText_chunks (source : Text) : (chunks source).flatMap Chunk.toText = source := by
  rw [chunks, Chunk.flatMap_toText_ofPieces]
  exact Mark.replace_eq_self (fun h => (Tag.append_of_read? h).1) source

-- The tree of a source prints as the source.
theorem printAll_parse (source : Text) : Node.printAll (parse source).nodes = source := by
  have h := Progress.text_foldl_step (chunks source) Progress.start
  rw [flatMap_toText_chunks] at h
  exact (Progress.printAll_finish _).trans h

-- A tree that holds no block to be expanded gives back its source; and without any kind to expand
-- every source comes back, whatever its tags are like.
theorem expand_parse_eq_source (source : Text) (params : Params) :
    (∀ kinds : Block.Kinds,
      (∀ head ∈ Node.heads (parse source).nodes, kinds.contains head.kind → head.lacksItem) →
        (parse source).expand params kinds = source) ∧
      (parse source).expand params .none = source := by
  have hidle : ∀ kinds : Block.Kinds,
      (∀ head ∈ Node.heads (parse source).nodes, kinds.contains head.kind → head.lacksItem) →
        (parse source).expand params kinds = source := by
    intro kinds h
    have hprint : Node.expansion ⟨params, kinds, false⟩ (parse source).nodes =
        Node.printAll (parse source).nodes := by
      apply Node.expansion_eq_printAll
      intro head hh
      cases hk : kinds.contains head.kind with
      | false => simp [Plan.expands, hk]
      | true => simp [Plan.expands, h head hh hk]
    exact hprint.trans (printAll_parse source)
  refine ⟨hidle, hidle .none fun head _ hk => ?_⟩
  cases head <;> simp [Block.Kinds.contains, Block.Kinds.none, Block.Head.kind] at hk

-- A tag that closes nothing, a loop without an item around a tag that is never closed, and a
-- conditional: the kinds that are expanded here find nothing to expand.
theorem expand_parse_eq_source_crossed :
    (parse "</set> <foreach open=\x22\x22><where>y</foreach><if test=\x22a\x22>z</if>".toList).expand []
        ⟨false, true, true, true⟩ =
      "</set> <foreach open=\x22\x22><where>y</foreach><if test=\x22a\x22>z</if>".toList :=
  (expand_parse_eq_source _ []).1 ⟨false, true, true, true⟩ (by decide +kernel)

end Template

end SqlPreview
