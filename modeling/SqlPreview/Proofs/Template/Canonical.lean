import Mathlib.Data.List.Chain
import SqlPreview.Proofs.Template.Place

namespace SqlPreview

namespace Node

-- Two neighbours of which one is no text.
def Apart (one other : Node) : Prop :=
  one.text? = none ∨ other.text? = none

theorem canonicalAll_cons {node : Node} {rest : List Node} :
    CanonicalAll (node :: rest) ↔
      Canonical node ∧ (node.text?.isSome → ∀ next ∈ rest.head?, next.text? = none) ∧
        CanonicalAll rest := by
  rw [CanonicalAll]

theorem canonicalAll_text {t : Text} {rest : List Node} :
    CanonicalAll (.text t :: rest) ↔
      t ≠ [] ∧ (∀ next ∈ rest.head?, next.text? = none) ∧ CanonicalAll rest := by
  rw [canonicalAll_cons, Canonical]
  simp [text?]

theorem canonicalAll_block {head : Block.Head} {openTag closeTag : Text} {body rest : List Node} :
    CanonicalAll (.block head openTag closeTag body :: rest) ↔ CanonicalAll body ∧ CanonicalAll rest := by
  rw [canonicalAll_cons, Canonical]
  simp [text?]

-- What holds of each node of a row, and of each pair of neighbours.
theorem canonicalAll_iff {nodes : List Node} :
    CanonicalAll nodes ↔ (∀ node ∈ nodes, Canonical node) ∧ nodes.IsChain Apart := by
  induction nodes with
  | nil => simp [CanonicalAll]
  | cons node rest ih =>
    have hnext : (node.text?.isSome → ∀ next ∈ rest.head?, next.text? = none) ↔
        ∀ next ∈ rest.head?, Apart node next := by
      cases node <;> simp [Apart, text?]
    rw [canonicalAll_cons, ih, hnext, List.isChain_cons, List.forall_mem_cons]
    tauto

-- The order of a row does not matter.
theorem canonicalAll_reverse {nodes : List Node} : CanonicalAll nodes.reverse ↔ CanonicalAll nodes := by
  rw [canonicalAll_iff, canonicalAll_iff, List.isChain_reverse]
  apply and_congr
  · simp only [List.mem_reverse]
  · exact List.IsChain.iff fun one other => or_comm

theorem canonicalAll_pushText {t : Text} {before : List Node} (h : CanonicalAll before) :
    CanonicalAll (pushText t before) := by
  by_cases ht : t = []
  · rw [ht, pushText_nil]
    exact h
  · cases before with
    | nil =>
      rw [pushText, if_neg ht]
      exact canonicalAll_text.mpr ⟨ht, by simp, h⟩
    | cons node before =>
      cases node with
      | text s =>
        obtain ⟨hs, hnext, hbefore⟩ := canonicalAll_text.mp h
        simp only [pushText, if_neg ht]
        exact canonicalAll_text.mpr ⟨by simp [hs], hnext, hbefore⟩
      | block head openTag closeTag body =>
        simp only [pushText, if_neg ht]
        exact canonicalAll_text.mpr ⟨ht, by simp [text?], h⟩

theorem canonicalAll_push {node : Node} {before : List Node} (hn : Canonical node)
    (hb : CanonicalAll before) : CanonicalAll (push node before) := by
  cases node with
  | text t => exact canonicalAll_pushText hb
  | block head openTag closeTag body => exact canonicalAll_block.mpr ⟨hn, hb⟩

theorem canonicalAll_foldr_push {nodes before : List Node} (hn : ∀ node ∈ nodes, Canonical node)
    (hb : CanonicalAll before) : CanonicalAll (nodes.foldr push before) := by
  induction nodes with
  | nil => exact hb
  | cons node nodes ih =>
    obtain ⟨hnode, hnodes⟩ := List.forall_mem_cons.mp hn
    exact canonicalAll_push hnode (ih hnodes)

end Node

namespace OpenBlock

variable {block : OpenBlock} {body : List Node}

theorem canonicalAll_giveUp (h : Node.CanonicalAll block.before) (hb : Node.CanonicalAll body) :
    Node.CanonicalAll (block.giveUp body) :=
  Node.canonicalAll_foldr_push (Node.canonicalAll_iff.mp hb).1 (Node.canonicalAll_pushText h)

theorem canonicalAll_close (h : Node.CanonicalAll block.before) (closeTag : Text)
    (hb : Node.CanonicalAll body) : Node.CanonicalAll (block.close closeTag body) :=
  Node.canonicalAll_block.mpr ⟨Node.canonicalAll_reverse.mpr hb, h⟩

end OpenBlock

namespace Progress

-- The nodes read so far are canonical on the level of every open block.
structure Canonical (progress : Progress) : Prop where
  nodes : Node.CanonicalAll progress.nodes
  blocks : ∀ block ∈ progress.blocks, Node.CanonicalAll block.before

theorem canonical_start : start.Canonical :=
  ⟨trivial, by simp [start]⟩

theorem canonicalAll_giveUpAll {blocks : List OpenBlock} {nodes : List Node}
    (hb : ∀ block ∈ blocks, Node.CanonicalAll block.before) (hn : Node.CanonicalAll nodes)
    (issues : List Issue) : Node.CanonicalAll (giveUpAll blocks nodes issues).1 := by
  induction blocks generalizing nodes issues with
  | nil => exact hn
  | cons block blocks ih =>
    obtain ⟨hblock, hblocks⟩ := List.forall_mem_cons.mp hb
    exact ih hblocks (OpenBlock.canonicalAll_giveUp hblock hn) _

-- A closing tag gives up the blocks inside the one that it closes, which then is a node of its level.
theorem Canonical.step {progress : Progress} (h : progress.Canonical) (chunk : Chunk) :
    (progress.step chunk).Canonical := by
  match chunk with
  | .text t => exact ⟨Node.canonicalAll_pushText h.nodes, h.blocks⟩
  | .tag ⟨tag, .opens head⟩ => exact ⟨trivial, List.forall_mem_cons.mpr ⟨h.nodes, h.blocks⟩⟩
  | .tag ⟨tag, .closes kind⟩ =>
    simp only [Progress.step]
    split
    · next block outer nodes issues hnear =>
      obtain ⟨-, inner, hblocks, -, hgive⟩ := exists_of_nearest? hnear
      have hall := h.blocks
      rw [hblocks, List.forall_mem_append, List.forall_mem_cons] at hall
      obtain ⟨hinner, hblock, houter⟩ := hall
      have hnodes := canonicalAll_giveUpAll hinner h.nodes progress.issues
      rw [hgive] at hnodes
      exact ⟨OpenBlock.canonicalAll_close hblock tag hnodes, houter⟩
    · exact ⟨Node.canonicalAll_pushText h.nodes, h.blocks⟩

theorem Canonical.foldl_step {progress : Progress} (h : progress.Canonical) (chunks : List Chunk) :
    (chunks.foldl Progress.step progress).Canonical := by
  induction chunks generalizing progress with
  | nil => exact h
  | cons chunk chunks ih => exact ih (h.step chunk)

theorem Canonical.finish {progress : Progress} (h : progress.Canonical) :
    Node.CanonicalAll progress.finish.1 :=
  Node.canonicalAll_reverse.mpr (canonicalAll_giveUpAll h.blocks h.nodes progress.issues)

end Progress

namespace Template

-- Every source is read as a canonical tree, whatever tags of it are out of place.
theorem canonicalAll_parse (source : Text) : Node.CanonicalAll (parse source).nodes :=
  (Progress.canonical_start.foldl_step (chunks source)).finish

end Template

end SqlPreview
