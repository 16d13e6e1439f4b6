import SqlPreview.Proofs.Template.RoundTrip

namespace SqlPreview

namespace Node

-- Both tags of a block are among `tags`.
def TaggedBy (tags : List Tag) : Node → Prop
  | text _ => True
  | block head openTag closeTag _ =>
    ⟨openTag, .opens head⟩ ∈ tags ∧ ⟨closeTag, .closes head.kind⟩ ∈ tags

def AllTaggedBy (tags : List Tag) (nodes : List Node) : Prop :=
  ∀ node ∈ everyAll nodes, TaggedBy tags node

variable {tags : List Tag}

theorem allTaggedBy_nil : AllTaggedBy tags [] := by
  simp [AllTaggedBy]

theorem allTaggedBy_cons {node : Node} {rest : List Node} :
    AllTaggedBy tags (node :: rest) ↔
      (∀ inner ∈ every node, TaggedBy tags inner) ∧ AllTaggedBy tags rest := by
  rw [AllTaggedBy, everyAll, List.forall_mem_append, AllTaggedBy]

theorem allTaggedBy_reverse {nodes : List Node} :
    AllTaggedBy tags nodes.reverse ↔ AllTaggedBy tags nodes := by
  simp only [AllTaggedBy, mem_everyAll_reverse]

theorem taggedBy_every_text (t : Text) : ∀ inner ∈ every (.text t), TaggedBy tags inner := by
  simp [every, TaggedBy]

theorem allTaggedBy_pushText {t : Text} {before : List Node} (h : AllTaggedBy tags before) :
    AllTaggedBy tags (pushText t before) := by
  cases before with
  | nil =>
    simp only [pushText]
    split
    · exact h
    · exact allTaggedBy_cons.mpr ⟨taggedBy_every_text t, h⟩
  | cons node before =>
    simp only [pushText]
    split
    · exact h
    · cases node with
      | text s =>
        exact allTaggedBy_cons.mpr ⟨taggedBy_every_text _, (allTaggedBy_cons.mp h).2⟩
      | block head openTag closeTag body =>
        exact allTaggedBy_cons.mpr ⟨taggedBy_every_text t, h⟩

theorem allTaggedBy_foldr_push {nodes before : List Node} (hn : AllTaggedBy tags nodes)
    (hb : AllTaggedBy tags before) : AllTaggedBy tags (nodes.foldr push before) := by
  induction nodes with
  | nil => exact hb
  | cons node nodes ih =>
    obtain ⟨hnode, hnodes⟩ := allTaggedBy_cons.mp hn
    rw [List.foldr_cons]
    cases node with
    | text t => exact allTaggedBy_pushText (ih hnodes)
    | block head openTag closeTag body => exact allTaggedBy_cons.mpr ⟨hnode, ih hnodes⟩

end Node

namespace OpenBlock

-- An open block that was opened by one of `tags`, behind nodes that are tagged by them.
structure TaggedBy (tags : List Tag) (block : OpenBlock) : Prop where
  opened : ⟨block.tag, .opens block.head⟩ ∈ tags
  before : Node.AllTaggedBy tags block.before

variable {tags : List Tag} {block : OpenBlock} {body : List Node}

theorem allTaggedBy_giveUp (h : block.TaggedBy tags) (hb : Node.AllTaggedBy tags body) :
    Node.AllTaggedBy tags (block.giveUp body) :=
  Node.allTaggedBy_foldr_push hb (Node.allTaggedBy_pushText h.before)

theorem allTaggedBy_close {closeTag : Text} (h : block.TaggedBy tags)
    (hc : ⟨closeTag, .closes block.head.kind⟩ ∈ tags) (hb : Node.AllTaggedBy tags body) :
    Node.AllTaggedBy tags (block.close closeTag body) := by
  refine Node.allTaggedBy_cons.mpr ⟨?_, h.before⟩
  rw [Node.every, List.forall_mem_cons]
  exact ⟨⟨h.opened, hc⟩, Node.allTaggedBy_reverse.mpr hb⟩

end OpenBlock

namespace Progress

-- All that has been read so far is tagged by `tags`.
structure TaggedBy (tags : List Tag) (progress : Progress) : Prop where
  nodes : Node.AllTaggedBy tags progress.nodes
  blocks : ∀ block ∈ progress.blocks, block.TaggedBy tags

variable {tags : List Tag}

theorem taggedBy_of_nearest? {kind : Block.Kind} {blocks blocks' : List OpenBlock}
    {nodes nodes' : List Node} {issues issues' : List Issue} {block : OpenBlock}
    (hn : Node.AllTaggedBy tags nodes) (hb : ∀ block ∈ blocks, block.TaggedBy tags)
    (h : nearest? kind blocks nodes issues = some (block, blocks', nodes', issues')) :
    block.head.kind = kind ∧ Node.AllTaggedBy tags nodes' ∧ block.TaggedBy tags ∧
      ∀ block ∈ blocks', block.TaggedBy tags := by
  induction blocks generalizing nodes issues with
  | nil => simp [nearest?] at h
  | cons first blocks ih =>
    rw [List.forall_mem_cons] at hb
    simp only [nearest?] at h
    split at h
    · next hk =>
      cases h
      exact ⟨hk, hn, hb⟩
    · exact ih (OpenBlock.allTaggedBy_giveUp hb.1 hn) hb.2 h

theorem taggedBy_step {progress : Progress} {chunk : Chunk} (h : progress.TaggedBy tags)
    (hc : ∀ tag, chunk = .tag tag → tag ∈ tags) : (progress.step chunk).TaggedBy tags := by
  match chunk with
  | .text t => exact ⟨Node.allTaggedBy_pushText h.nodes, h.blocks⟩
  | .tag ⟨tag, .opens head⟩ =>
    exact ⟨Node.allTaggedBy_nil, List.forall_mem_cons.mpr ⟨⟨hc _ rfl, h.nodes⟩, h.blocks⟩⟩
  | .tag ⟨tag, .closes kind⟩ =>
    simp only [step]
    split
    · next hnear =>
      obtain ⟨rfl, hnodes, hblock, hblocks⟩ := taggedBy_of_nearest? h.nodes h.blocks hnear
      exact ⟨OpenBlock.allTaggedBy_close hblock (hc _ rfl) hnodes, hblocks⟩
    · exact ⟨Node.allTaggedBy_pushText h.nodes, h.blocks⟩

theorem taggedBy_foldl_step {chunks : List Chunk} {progress : Progress}
    (h : progress.TaggedBy tags) (hc : ∀ tag, .tag tag ∈ chunks → tag ∈ tags) :
    (chunks.foldl step progress).TaggedBy tags := by
  induction chunks generalizing progress with
  | nil => exact h
  | cons chunk chunks ih =>
    refine ih (taggedBy_step h fun tag he => hc tag ?_) fun tag hm => hc tag ?_
    · rw [he]
      exact List.mem_cons_self
    · exact List.mem_cons_of_mem _ hm

theorem allTaggedBy_giveUpAll {blocks : List OpenBlock} {nodes : List Node} {issues : List Issue}
    (hn : Node.AllTaggedBy tags nodes) (hb : ∀ block ∈ blocks, block.TaggedBy tags) :
    Node.AllTaggedBy tags (giveUpAll blocks nodes issues).1 := by
  induction blocks generalizing nodes issues with
  | nil => exact hn
  | cons block blocks ih =>
    rw [List.forall_mem_cons] at hb
    exact ih (OpenBlock.allTaggedBy_giveUp hb.1 hn) hb.2

end Progress

theorem Chunk.mem_of_tag_mem_ofPieces {pieces : List (Piece Tag)} {tag : Tag}
    (h : .tag tag ∈ ofPieces pieces) : .mark tag ∈ pieces := by
  induction pieces with
  | nil => simp [ofPieces] at h
  | cons piece pieces ih =>
    cases piece with
    | mark found =>
      rw [ofPieces, List.mem_cons] at h
      rcases h with h | h
      · cases h
        exact List.mem_cons_self
      · exact List.mem_cons_of_mem _ (ih h)
    | char c =>
      refine List.mem_cons_of_mem _ (ih ?_)
      simp only [ofPieces] at h
      split at h
      · next hp => simpa [hp] using h
      · simpa using h

namespace Template

-- Both tags of every block of a tree are found in the source.
theorem allTaggedBy_parse (source : Text) :
    Node.AllTaggedBy (Tag.mark.all source) (parse source).nodes := by
  have hstart : Progress.start.TaggedBy (Tag.mark.all source) :=
    ⟨Node.allTaggedBy_nil, by simp [Progress.start]⟩
  have htags : ∀ tag, .tag tag ∈ chunks source → tag ∈ Tag.mark.all source := fun tag h =>
    List.mem_filterMap.mpr ⟨_, Chunk.mem_of_tag_mem_ofPieces h, rfl⟩
  have hread := Progress.taggedBy_foldl_step hstart htags
  exact Node.allTaggedBy_reverse.mpr (Progress.allTaggedBy_giveUpAll hread.nodes hread.blocks)

-- A tree that was read, and whose texts are calm, can be written down and read again.
theorem lawfulAll_parse {source : Text}
    (h : ∀ t ∈ Node.texts (parse source).nodes, Tag.isCalm t) :
    Node.LawfulAll (parse source).nodes := by
  intro node hn
  cases node with
  | text t => exact h t (List.mem_filterMap.mpr ⟨_, hn, rfl⟩)
  | block head openTag closeTag body =>
    obtain ⟨ho, hc⟩ := allTaggedBy_parse source _ hn
    exact ⟨Tag.written_of_mem_all ho, Tag.written_of_mem_all hc⟩

end Template

end SqlPreview
