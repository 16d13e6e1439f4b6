import SqlPreview.Proofs.Template.Token

namespace SqlPreview

namespace Node

mutual

-- A node that begins at `offset`, and all nodes inside it, with their offsets.
def placed (offset : Nat) : Node → List (Nat × Node)
  | text t => [(offset, text t)]
  | block head openTag closeTag body =>
    (offset, block head openTag closeTag body) :: placedAll (offset + Text.byteLength openTag) body

def placedAll (offset : Nat) : List Node → List (Nat × Node)
  | [] => []
  | node :: rest => placed offset node ++ placedAll (offset + Text.byteLength (print node)) rest

end

theorem placedAll_append (offset : Nat) (first second : List Node) :
    placedAll offset (first ++ second) =
      placedAll offset first ++ placedAll (offset + Text.byteLength (printAll first)) second := by
  induction first generalizing offset with
  | nil => simp [placedAll]
  | cons node rest ih =>
    rw [List.cons_append, placedAll, ih, placedAll, printAll, Text.byteLength_append,
      List.append_assoc, Nat.add_assoc]

theorem placedAll_reverse_cons (offset : Nat) (node : Node) (before : List Node) :
    placedAll offset (node :: before).reverse =
      placedAll offset before.reverse ++
        placed (offset + Text.byteLength (printAll before.reverse)) node := by
  rw [List.reverse_cons, placedAll_append, placedAll, placedAll, List.append_nil]

-- The two tags of a block at some place.
def pair? : Nat × Node → Option (Token × Token)
  | (_, text _) => none
  | (offset, block head openTag closeTag body) =>
    some (⟨offset, openTag, .opens head⟩,
      ⟨offset + (Text.byteLength openTag + Text.byteLength (printAll body)), closeTag,
        .closes head.kind⟩)

-- The pairs of tags that are blocks of a tree.
def pairs (nodes : List Node) : List (Token × Token) :=
  (placedAll 0 nodes).filterMap pair?

-- A text that stands at `offset` in a text node.
def Shows (places : List (Nat × Node)) (offset : Nat) (t : Text) : Prop :=
  ∃ start before after, (start, text (before ++ (t ++ after))) ∈ places ∧
    start + Text.byteLength before = offset

-- A node stands inside the text of its tree.
theorem within_of_mem_placedAll {nodes : List Node} {offset : Nat} {place : Nat × Node}
    (h : place ∈ placedAll offset nodes) :
    offset ≤ place.1 ∧ place.1 + Text.byteLength (print place.2) ≤
      offset + Text.byteLength (printAll nodes) := by
  induction nodes using row_induction generalizing offset with
  | nil => cases h
  | text t rest ih =>
    rw [printAll, Text.byteLength_append]
    rcases List.mem_cons.mp h with rfl | hrest
    · exact ⟨Nat.le_refl _, by simp only; omega⟩
    · have hwithin := ih hrest
      omega
  | block head openTag closeTag body rest ihBody ihRest =>
    rw [printAll, Text.byteLength_append]
    rw [placedAll, placed, List.cons_append, List.mem_cons, List.mem_append] at h
    rcases h with rfl | hbody | hrest
    · exact ⟨Nat.le_refl _, by simp only; omega⟩
    · have hwithin := ihBody hbody
      rw [print, Text.byteLength_append, Text.byteLength_append]
      omega
    · have hwithin := ihRest hrest
      omega

-- A block ends with its closing tag.
theorem end_of_pair? {place : Nat × Node} {pair : Token × Token} (h : pair? place = some pair) :
    place.1 ≤ pair.2.offset ∧
      pair.2.offset + Text.byteLength pair.2.tag.text = place.1 + Text.byteLength (print place.2) := by
  obtain ⟨offset, node⟩ := place
  cases node with
  | text t => cases h
  | block head openTag closeTag body =>
    cases h
    simp only [print, Text.byteLength_append]
    omega

theorem opens_of_pair? {place : Nat × Node} {pair : Token × Token} (h : pair? place = some pair) :
    ∃ head, pair.1.tag.role = .opens head := by
  obtain ⟨offset, node⟩ := place
  cases node with
  | text t => cases h
  | block head openTag closeTag body =>
    cases h
    exact ⟨head, rfl⟩

-- A text node ends before the closing tag of a block, or begins behind it.
theorem text_apart_closing {nodes : List Node} {offset start : Nat} {s : Text}
    {place : Nat × Node} {pair : Token × Token} (hs : (start, text s) ∈ placedAll offset nodes)
    (hm : place ∈ placedAll offset nodes) (hpair : pair? place = some pair) :
    start + Text.byteLength s ≤ pair.2.offset ∨
      pair.2.offset + Text.byteLength pair.2.tag.text ≤ start := by
  have hend := end_of_pair? hpair
  induction nodes using row_induction generalizing offset with
  | nil => cases hs
  | text t rest ih =>
    rcases List.mem_cons.mp hm with rfl | hm
    · cases hpair
    · have hwithin := within_of_mem_placedAll hm
      rcases List.mem_cons.mp hs with heq | hs
      · cases heq
        rw [print] at hwithin
        omega
      · exact ih hs hm
  | block head openTag closeTag body rest ihBody ihRest =>
    rw [placedAll, placed, List.cons_append, List.mem_cons, List.mem_append] at hs hm
    have hlength : Text.byteLength (print (block head openTag closeTag body)) =
        Text.byteLength openTag + (Text.byteLength (printAll body) + Text.byteLength closeTag) := by
      rw [print, Text.byteLength_append, Text.byteLength_append]
    rcases hs with heq | hs | hs
    · cases heq
    · have hwithin := within_of_mem_placedAll hs
      simp only [print] at hwithin
      rcases hm with rfl | hm | hm
      · cases hpair
        simp only
        omega
      · exact ihBody hs hm
      · have hwithin' := within_of_mem_placedAll hm
        omega
    · have hwithin := within_of_mem_placedAll hs
      rcases hm with rfl | hm | hm
      · simp only at hend
        omega
      · have hwithin' := within_of_mem_placedAll hm
        omega
      · exact ihRest hs hm

-- A closing tag of a block does not stand in a text.
theorem not_shows_closing {nodes : List Node} {offset : Nat} {pair : Token × Token}
    (hp : pair ∈ (placedAll offset nodes).filterMap pair?) (ht : pair.2.tag.text ≠ []) :
    ¬Shows (placedAll offset nodes) pair.2.offset pair.2.tag.text := by
  rintro ⟨start, before, after, hs, hstart⟩
  obtain ⟨place, hm, hpair⟩ := List.mem_filterMap.mp hp
  have happart := text_apart_closing hs hm hpair
  have hpos := Text.byteLength_pos ht
  rw [Text.byteLength_append, Text.byteLength_append] at happart
  omega

-- Whatever text stands somewhere stands there still.
def Keeps (one other : List (Nat × Node)) : Prop :=
  ∀ offset t, t ≠ [] → Shows one offset t → Shows other offset t

theorem keeps_of_subset {one other : List (Nat × Node)} (h : one ⊆ other) : Keeps one other := by
  rintro offset t - ⟨start, before, after, hm, hstart⟩
  exact ⟨start, before, after, h hm, hstart⟩

-- The same blocks at the same places, and no text lost.
structure Grown (one other : List (Nat × Node)) : Prop where
  pairs : other.filterMap pair? = one.filterMap pair?
  keeps : Keeps one other

theorem Grown.refl (places : List (Nat × Node)) : Grown places places :=
  ⟨rfl, fun _ _ _ h => h⟩

theorem Grown.trans {one two three : List (Nat × Node)} (h : Grown one two) (h' : Grown two three) :
    Grown one three :=
  ⟨h'.pairs.trans h.pairs, fun offset t ht hs => h'.keeps offset t ht (h.keeps offset t ht hs)⟩

theorem Grown.append {one other one' other' : List (Nat × Node)} (h : Grown one other)
    (h' : Grown one' other') : Grown (one ++ one') (other ++ other') := by
  refine ⟨by rw [List.filterMap_append, List.filterMap_append, h.pairs, h'.pairs], ?_⟩
  rintro offset t ht ⟨start, before, after, hm, hstart⟩
  rcases List.mem_append.mp hm with hm | hm
  · obtain ⟨start, before, after, hm, hstart⟩ := h.keeps offset t ht ⟨start, before, after, hm, hstart⟩
    exact ⟨start, before, after, List.mem_append_left _ hm, hstart⟩
  · obtain ⟨start, before, after, hm, hstart⟩ := h'.keeps offset t ht ⟨start, before, after, hm, hstart⟩
    exact ⟨start, before, after, List.mem_append_right _ hm, hstart⟩

theorem grown_append_text (places : List (Nat × Node)) (offset : Nat) (t : Text) :
    Grown places (places ++ [(offset, text t)]) := by
  refine ⟨by rw [List.filterMap_append]; simp [pair?], keeps_of_subset ?_⟩
  exact List.subset_append_left _ _

-- Two texts that stand one behind the other may become one.
theorem grown_join (offset : Nat) (s t : Text) :
    Grown [(offset, text s), (offset + Text.byteLength s, text t)] [(offset, text (s ++ t))] := by
  refine ⟨rfl, ?_⟩
  rintro place found - ⟨start, before, after, hm, hstart⟩
  simp only [List.mem_cons, List.not_mem_nil, or_false, Prod.mk.injEq, text.injEq] at hm
  rcases hm with ⟨rfl, rfl⟩ | ⟨rfl, rfl⟩
  · exact ⟨start, before, after ++ t, by simp, hstart⟩
  · refine ⟨offset, s ++ before, after, by simp, ?_⟩
    rw [Text.byteLength_append]
    omega

-- An empty text shows nothing.
theorem grown_empty (offset : Nat) : Grown [(offset, text [])] [] := by
  refine ⟨rfl, ?_⟩
  rintro place found hfound ⟨start, before, after, hm, -⟩
  simp only [List.mem_singleton, Prod.mk.injEq, text.injEq] at hm
  have hnil : found = [] := by
    have h := hm.2
    simp only [List.append_eq_nil_iff] at h
    exact h.2.1
  exact absurd hnil hfound

theorem grown_reverse_pushText (offset : Nat) (t : Text) (before : List Node) :
    Grown (placedAll offset (text t :: before).reverse)
      (placedAll offset (pushText t before).reverse) := by
  rw [placedAll_reverse_cons, placed]
  by_cases ht : t = []
  · subst ht
    rw [pushText_nil]
    have h := (Grown.refl (placedAll offset before.reverse)).append
      (grown_empty (offset + Text.byteLength (printAll before.reverse)))
    rwa [List.append_nil] at h
  · cases before with
    | nil =>
      simp only [pushText, ht, if_false]
      exact Grown.refl _
    | cons node before =>
      cases node with
      | text s =>
        simp only [pushText, ht, if_false]
        rw [placedAll_reverse_cons, placedAll_reverse_cons, placed, placed, List.append_assoc,
          List.singleton_append, List.reverse_cons, printAll_append, Text.byteLength_append,
          printAll_text, printAll_nil, List.append_nil, ← Nat.add_assoc]
        exact (Grown.refl _).append (grown_join _ s t)
      | block head openTag closeTag body =>
        simp only [pushText, ht, if_false]
        rw [placedAll_reverse_cons offset (text t), placed]
        exact Grown.refl _

theorem grown_reverse_push (offset : Nat) (node : Node) (before : List Node) :
    Grown (placedAll offset (node :: before).reverse) (placedAll offset (push node before).reverse) := by
  cases node with
  | text t => exact grown_reverse_pushText offset t before
  | block head openTag closeTag body => exact Grown.refl _

theorem grown_foldr_push (offset : Nat) (nodes before : List Node) :
    Grown (placedAll offset (nodes ++ before).reverse)
      (placedAll offset (nodes.foldr push before).reverse) := by
  induction nodes with
  | nil => exact Grown.refl _
  | cons node nodes ih =>
    have hlength : printAll (nodes.foldr push before).reverse = printAll (nodes ++ before).reverse := by
      rw [printAll_reverse_foldr_push, List.reverse_append, printAll_append]
    have hnode := grown_reverse_push offset node (nodes.foldr push before)
    rw [placedAll_reverse_cons, hlength] at hnode
    rw [List.cons_append, placedAll_reverse_cons]
    exact (ih.append (Grown.refl _)).trans hnode

end Node

namespace OpenBlock

-- The opening tag of the block.
def token (block : OpenBlock) : Token :=
  ⟨block.offset, block.tag, .opens block.head⟩

-- The nodes that are finished while blocks are open, with their offsets.
def places : List OpenBlock → List Node → List (Nat × Node)
  | [], nodes => Node.placedAll 0 nodes.reverse
  | block :: blocks, nodes =>
    places blocks block.before ++
      Node.placedAll (Text.byteLength (lead (block :: blocks))) nodes.reverse

theorem places_eq (blocks : List OpenBlock) (nodes : List Node) :
    places blocks nodes =
      places blocks [] ++ Node.placedAll (Text.byteLength (lead blocks)) nodes.reverse := by
  cases blocks <;> simp [places, Node.placedAll, lead]

theorem grown_places {blocks : List OpenBlock} {one other : List Node}
    (h : Node.Grown (Node.placedAll (Text.byteLength (lead blocks)) one.reverse)
      (Node.placedAll (Text.byteLength (lead blocks)) other.reverse)) :
    Node.Grown (places blocks one) (places blocks other) := by
  rw [places_eq blocks one, places_eq blocks other]
  exact (Node.Grown.refl _).append h

-- A text that is pushed stands behind all that has been read.
theorem grown_pushText (blocks : List OpenBlock) (nodes : List Node) (t : Text) :
    Node.Grown
      (places blocks nodes ++
        [(Text.byteLength (lead blocks ++ Node.printAll nodes.reverse), .text t)])
      (places blocks (Node.pushText t nodes)) := by
  have h : Node.Grown (places blocks (.text t :: nodes)) (places blocks (Node.pushText t nodes)) :=
    grown_places (Node.grown_reverse_pushText _ t nodes)
  rwa [places_eq, Node.placedAll_reverse_cons, Node.placed, ← List.append_assoc, ← places_eq,
    ← Text.byteLength_append] at h

-- A block that is given up leaves all blocks and texts where they are.
theorem grown_giveUp (block : OpenBlock) (blocks : List OpenBlock) (nodes : List Node) :
    Node.Grown (places (block :: blocks) nodes) (places blocks (block.giveUp nodes)) := by
  let opened := Node.pushText block.tag block.before
  have hlead : lead (block :: blocks) = lead blocks ++ Node.printAll opened.reverse := by
    rw [lead, Node.printAll_reverse_pushText]
  have htag : Node.Grown (places blocks block.before) (places blocks opened) :=
    (Node.grown_append_text _ _ _).trans (grown_pushText blocks block.before block.tag)
  have hnodes : places blocks opened ++
      Node.placedAll (Text.byteLength (lead (block :: blocks))) nodes.reverse =
        places blocks (nodes ++ opened) := by
    rw [places_eq blocks (nodes ++ opened), places_eq blocks opened, List.reverse_append,
      Node.placedAll_append, hlead, Text.byteLength_append, List.append_assoc]
  have hpush : Node.Grown (places blocks (nodes ++ opened)) (places blocks (block.giveUp nodes)) :=
    grown_places (Node.grown_foldr_push _ nodes opened)
  rw [← hnodes] at hpush
  exact (htag.append (Node.Grown.refl _)).trans hpush

-- Every block stands where what has been read before it ends.
def Placed : List OpenBlock → Prop
  | [] => True
  | block :: blocks =>
    block.offset = Text.byteLength (lead blocks ++ Node.printAll block.before.reverse) ∧
      Placed blocks

theorem Placed.of_append {inner outer : List OpenBlock} (h : Placed (inner ++ outer)) :
    Placed outer := by
  induction inner with
  | nil => exact h
  | cons block inner ih => exact ih h.2

-- A block that is closed adds itself to what was finished before.
theorem places_close {block : OpenBlock} {blocks : List OpenBlock} (h : Placed (block :: blocks))
    (closeTag : Text) (nodes : List Node) :
    (places blocks (block.close closeTag nodes)).Perm
      ((block.offset, .block block.head block.tag closeTag nodes.reverse) ::
        places (block :: blocks) nodes) := by
  have hoffset : Text.byteLength (lead blocks) +
      Text.byteLength (Node.printAll block.before.reverse) = block.offset := by
    rw [h.1, Text.byteLength_append]
  have hlead : Text.byteLength (lead (block :: blocks)) =
      block.offset + Text.byteLength block.tag := by
    rw [lead, h.1, ← List.append_assoc, Text.byteLength_append]
  rw [places, places_eq blocks (block.close closeTag nodes), places_eq blocks block.before, close,
    Node.placedAll_reverse_cons, Node.placed, hoffset, hlead, ← List.append_assoc]
  exact List.perm_middle

end OpenBlock

namespace Progress

theorem giveUpAll_snd (blocks : List OpenBlock) (nodes : List Node) (issues : List Issue) :
    (giveUpAll blocks nodes issues).2 = (blocks.map OpenBlock.unclosed).reverse ++ issues := by
  induction blocks generalizing nodes issues with
  | nil => rfl
  | cons block blocks ih =>
    rw [giveUpAll, ih, List.map_cons, List.reverse_cons, List.append_assoc, List.singleton_append]

theorem grown_giveUpAll (inner outer : List OpenBlock) (nodes : List Node) (issues : List Issue) :
    Node.Grown (OpenBlock.places (inner ++ outer) nodes)
      (OpenBlock.places outer (giveUpAll inner nodes issues).1) := by
  induction inner generalizing nodes issues with
  | nil => exact Node.Grown.refl _
  | cons block inner ih => exact (OpenBlock.grown_giveUp block _ nodes).trans (ih _ _)

-- The nearest open block of a kind is found behind blocks of other kinds, which are given up.
theorem exists_of_nearest? {kind : Block.Kind} {blocks outer : List OpenBlock}
    {nodes nodes' : List Node} {issues issues' : List Issue} {block : OpenBlock}
    (h : nearest? kind blocks nodes issues = some (block, outer, nodes', issues')) :
    block.head.kind = kind ∧ ∃ inner, blocks = inner ++ block :: outer ∧
      (∀ other ∈ inner, other.head.kind ≠ kind) ∧ giveUpAll inner nodes issues = (nodes', issues') := by
  induction blocks generalizing nodes issues with
  | nil => simp [nearest?] at h
  | cons first blocks ih =>
    simp only [nearest?] at h
    split at h
    · next hk =>
      cases h
      exact ⟨hk, [], rfl, by simp, rfl⟩
    · next hk =>
      obtain ⟨hkind, inner, rfl, hinner, hgive⟩ := ih h
      exact ⟨hkind, first :: inner, rfl, List.forall_mem_cons.mpr ⟨hk, hinner⟩, hgive⟩

theorem ne_of_nearest?_eq_none {kind : Block.Kind} {blocks : List OpenBlock} {nodes : List Node}
    {issues : List Issue} (h : nearest? kind blocks nodes issues = none) :
    ∀ block ∈ blocks, block.head.kind ≠ kind := by
  induction blocks generalizing nodes issues with
  | nil => simp
  | cons first blocks ih =>
    simp only [nearest?] at h
    split at h
    · cases h
    · next hk => exact List.forall_mem_cons.mpr ⟨hk, ih h⟩

-- The reading stands where the text it has read ends, and so does every open block.
structure Placed (progress : Progress) : Prop where
  offset : progress.offset = Text.byteLength progress.text
  blocks : OpenBlock.Placed progress.blocks

theorem placed_start : start.Placed :=
  ⟨rfl, trivial⟩

theorem offset_step (progress : Progress) (chunk : Chunk) :
    (progress.step chunk).offset = progress.offset + Text.byteLength chunk.toText := by
  match chunk with
  | .text t => rfl
  | .tag ⟨tag, .opens head⟩ => rfl
  | .tag ⟨tag, .closes kind⟩ =>
    simp only [step]
    split <;> rfl

theorem Placed.step {progress : Progress} (h : progress.Placed) (chunk : Chunk) :
    (progress.step chunk).Placed := by
  refine ⟨by rw [offset_step, text_step, Text.byteLength_append, h.offset], ?_⟩
  match chunk with
  | .text t => exact h.blocks
  | .tag ⟨tag, .opens head⟩ => exact ⟨h.offset, h.blocks⟩
  | .tag ⟨tag, .closes kind⟩ =>
    simp only [Progress.step]
    split
    · next hnear =>
      obtain ⟨-, inner, hblocks, -⟩ := exists_of_nearest? hnear
      have hinner := h.blocks
      rw [hblocks] at hinner
      exact hinner.of_append.2
    · exact h.blocks

-- The nodes that have been finished so far, with their offsets.
def places (progress : Progress) : List (Nat × Node) :=
  OpenBlock.places progress.blocks progress.nodes

-- The pairs of tags that have become blocks so far.
def pairs (progress : Progress) : List (Token × Token) :=
  progress.places.filterMap Node.pair?

theorem grown_places_step_text (progress : Progress) (t : Text) :
    Node.Grown progress.places (progress.step (.text t)).places :=
  (Node.grown_append_text _ _ _).trans (OpenBlock.grown_pushText progress.blocks progress.nodes t)

theorem places_step_opens (progress : Progress) (tag : Text) (head : Block.Head) :
    (progress.step (.tag ⟨tag, .opens head⟩)).places = progress.places := by
  simp [step, places, OpenBlock.places, Node.placedAll]

-- A closing tag stands where the block that it closes ends.
theorem Placed.offset_closing {progress : Progress} (h : progress.Placed) {kind : Block.Kind}
    {block : OpenBlock} {outer : List OpenBlock} {nodes : List Node} {issues : List Issue}
    (hnear : nearest? kind progress.blocks progress.nodes progress.issues =
      some (block, outer, nodes, issues)) :
    block.offset + (Text.byteLength block.tag + Text.byteLength (Node.printAll nodes.reverse)) =
      progress.offset := by
  obtain ⟨-, inner, hblocks, -⟩ := exists_of_nearest? hnear
  have hplaced := h.blocks
  rw [hblocks] at hplaced
  have hstart := hplaced.of_append.1
  have htext := text_of_nearest? hnear
  rw [h.offset, text, ← htext, OpenBlock.lead, hstart]
  simp only [Text.byteLength_append]
  omega

-- A closing tag closes the nearest open block of its kind, and the blocks inside that one are given
-- up; without such a block it becomes text.
theorem step_closes {progress : Progress} (h : progress.Placed) {tag : Text} (ht : tag ≠ [])
    (kind : Block.Kind) :
    let next := progress.step (.tag ⟨tag, .closes kind⟩)
    (∃ inner block outer, progress.blocks = inner ++ block :: outer ∧ block.head.kind = kind ∧
        (∀ other ∈ inner, other.head.kind ≠ kind) ∧ next.blocks = outer ∧
        next.issues = (inner.map OpenBlock.unclosed).reverse ++ progress.issues ∧
        next.pairs.Perm ((block.token, ⟨progress.offset, tag, .closes kind⟩) :: progress.pairs) ∧
        Node.Keeps progress.places next.places) ∨
      ((∀ block ∈ progress.blocks, block.head.kind ≠ kind) ∧ next.blocks = progress.blocks ∧
        next.issues = ⟨.unopened, tag, progress.offset⟩ :: progress.issues ∧
        next.pairs = progress.pairs ∧ Node.Keeps progress.places next.places ∧
        Node.Shows next.places progress.offset tag) := by
  intro next
  cases hnear : nearest? kind progress.blocks progress.nodes progress.issues with
  | none =>
    have hnext : next = ⟨progress.offset + Text.byteLength tag, Node.pushText tag progress.nodes,
        progress.blocks, ⟨.unopened, tag, progress.offset⟩ :: progress.issues⟩ := by
      simp only [next, step, hnear, Chunk.toText]
    have hgrown := OpenBlock.grown_pushText progress.blocks progress.nodes tag
    have hkept := (Node.grown_append_text progress.places _ _).trans hgrown
    right
    rw [hnext]
    refine ⟨ne_of_nearest?_eq_none hnear, rfl, rfl, hkept.pairs, hkept.keeps, ?_⟩
    apply hgrown.keeps _ _ ht
    exact ⟨progress.offset, [], [], by simp [h.offset, text], rfl⟩
  | some found =>
    obtain ⟨block, outer, nodes, issues⟩ := found
    have hnext : next = ⟨progress.offset + Text.byteLength tag, block.close tag nodes, outer,
        issues⟩ := by
      simp only [next, step, hnear, Chunk.toText]
    obtain ⟨hkind, inner, hblocks, hinner, hgive⟩ := exists_of_nearest? hnear
    have hgrown := grown_giveUpAll inner (block :: outer) progress.nodes progress.issues
    have hissues := giveUpAll_snd inner progress.nodes progress.issues
    have hplaced := h.blocks
    rw [hblocks] at hplaced
    rw [hgive, ← hblocks] at hgrown
    rw [hgive] at hissues
    have hclose := OpenBlock.places_close hplaced.of_append tag nodes
    left
    rw [hnext]
    refine ⟨inner, block, outer, hblocks, hkind, hinner, rfl, hissues, ?_, ?_⟩
    · have hpair : Node.pair? (block.offset, .block block.head block.tag tag nodes.reverse) =
          some (block.token, ⟨progress.offset, tag, .closes kind⟩) := by
        rw [Node.pair?, h.offset_closing hnear, hkind, OpenBlock.token]
      have hpairs := hclose.filterMap Node.pair?
      rw [List.filterMap_cons_some hpair, hgrown.pairs] at hpairs
      exact hpairs
    · intro offset t ht hs
      refine Node.keeps_of_subset ?_ offset t ht (hgrown.keeps offset t ht hs)
      intro place hp
      exact hclose.mem_iff.mpr (List.mem_cons_of_mem _ hp)

-- Giving up the blocks that are open at the end keeps the pairs and the texts.
theorem grown_places_finish (progress : Progress) :
    Node.Grown progress.places (Node.placedAll 0 progress.finish.1) := by
  have h := grown_giveUpAll progress.blocks [] progress.nodes progress.issues
  rwa [List.append_nil] at h

end Progress

end SqlPreview
