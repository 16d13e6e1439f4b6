import SqlPreview.Proofs.Template.Markup
import SqlPreview.Proofs.Template.Tree

namespace SqlPreview

namespace Node

-- A node as it may be read: a calm text, or a block between tags that are written as its head says.
def Lawful : Node → Prop
  | text t => Tag.isCalm t
  | block head openTag closeTag _ => head.OpenedBy openTag ∧ head.kind.ClosedBy closeTag

-- All nodes of a tree are lawful.
def LawfulAll (nodes : List Node) : Prop :=
  ∀ node ∈ everyAll nodes, Lawful node

theorem lawfulAll_nil : LawfulAll [] := by
  simp [LawfulAll]

theorem lawfulAll_text {t : Text} {rest : List Node} :
    LawfulAll (.text t :: rest) ↔ Tag.isCalm t ∧ LawfulAll rest := by
  simp [LawfulAll, Lawful]

theorem lawfulAll_block {head : Block.Head} {openTag closeTag : Text} {body rest : List Node} :
    LawfulAll (.block head openTag closeTag body :: rest) ↔
      (head.OpenedBy openTag ∧ head.kind.ClosedBy closeTag) ∧ LawfulAll body ∧ LawfulAll rest := by
  rw [LawfulAll, everyAll_block, List.forall_mem_cons, List.forall_mem_append]
  rfl

theorem lawfulAll_append {first second : List Node} :
    LawfulAll (first ++ second) ↔ LawfulAll first ∧ LawfulAll second := by
  rw [LawfulAll, everyAll_append, List.forall_mem_append, LawfulAll, LawfulAll]

mutual

-- No text is empty, and no two texts are neighbours, neither on this level nor inside a block.
def Canonical : Node → Prop
  | text t => t ≠ []
  | block _ _ _ body => CanonicalAll body

def CanonicalAll : List Node → Prop
  | [] => True
  | node :: rest =>
    Canonical node ∧ (node.text?.isSome → ∀ next ∈ rest.head?, next.text? = none) ∧ CanonicalAll rest

end

-- A tree that can be written down so that nothing else is read from it.
structure WellFormed (nodes : List Node) : Prop where
  canonical : CanonicalAll nodes
  lawful : LawfulAll nodes

mutual

-- The issues of a node that is printed from `offset` on: one for every loop without an item, at the
-- place of its tag.
def missingItems (offset : Nat) : Node → List Issue
  | text _ => []
  | block head openTag _ body =>
    (if head.lacksItem then [⟨.withoutItem, openTag, offset⟩] else []) ++
      missingItemsAll (offset + Text.byteLength openTag) body

def missingItemsAll (offset : Nat) : List Node → List Issue
  | [] => []
  | node :: rest =>
    missingItems offset node ++ missingItemsAll (offset + Text.byteLength (print node)) rest

end

mutual

-- The characters and tags that a node is written in.
def pieces : Node → List (Piece Tag)
  | text t => t.map .char
  | block head openTag closeTag body =>
    .mark ⟨openTag, .opens head⟩ :: (piecesAll body ++ [.mark ⟨closeTag, .closes head.kind⟩])

def piecesAll : List Node → List (Piece Tag)
  | [] => []
  | node :: rest => pieces node ++ piecesAll rest

end

-- A printed tree is scanned into its own tags.
theorem scan_printAll_append {nodes : List Node} (h : LawfulAll nodes) (behind : Text) :
    Tag.mark.scan (printAll nodes ++ behind) = piecesAll nodes ++ Tag.mark.scan behind := by
  induction nodes using row_induction generalizing behind with
  | nil => simp [piecesAll]
  | text t rest ih =>
    obtain ⟨ht, hrest⟩ := lawfulAll_text.mp h
    rw [printAll_text, List.append_assoc, Tag.scan_calm_append ht, ih hrest, piecesAll, pieces,
      List.append_assoc]
  | block head openTag closeTag body rest ihBody ihRest =>
    obtain ⟨⟨ho, hc⟩, hbody, hrest⟩ := lawfulAll_block.mp h
    have hopen : Tag.Written ⟨openTag, .opens head⟩ := ho
    have hclose : Tag.Written ⟨closeTag, .closes head.kind⟩ := hc
    simp only [printAll_block, List.append_assoc]
    rw [Mark.scan_of_read? Tag.mark (Tag.read?_append hopen _), ihBody hbody,
      Mark.scan_of_read? Tag.mark (Tag.read?_append hclose _), ihRest hrest,
      piecesAll, pieces]
    simp only [List.cons_append, List.append_assoc, List.nil_append]

mutual

-- Puts a node behind the nodes before it, given last first, and texts that meet into one.
def settle (before : List Node) : Node → List Node
  | text t => pushText t before
  | block head openTag closeTag body =>
    .block head openTag closeTag (settleAll [] body).reverse :: before

def settleAll (before : List Node) : List Node → List Node
  | [] => before
  | node :: rest => settleAll (settle before node) rest

end

-- The tree with neighbouring texts put together and without empty ones.
def joinTexts (nodes : List Node) : List Node :=
  (settleAll [] nodes).reverse

theorem pushText_nil (before : List Node) : pushText [] before = before := by
  cases before <;> simp [pushText]

theorem pushText_append (s t : Text) (before : List Node) :
    pushText t (pushText s before) = pushText (s ++ t) before := by
  cases before with
  | nil =>
    cases s with
    | nil => simp [pushText]
    | cons c s => cases t <;> simp [pushText]
  | cons node before =>
    cases s with
    | nil => simp [pushText]
    | cons c s => cases node <;> cases t <;> simp [pushText]

end Node

namespace Progress

-- Reads one more piece of the source.
def stepPiece (progress : Progress) : Piece Tag → Progress
  | .char c => progress.step (.text [c])
  | .mark tag => progress.step (.tag tag)

theorem step_text_nil (progress : Progress) : progress.step (.text []) = progress := by
  simp [step, Chunk.toText, Node.pushText_nil]

theorem step_text_append (progress : Progress) (s t : Text) :
    (progress.step (.text s)).step (.text t) = progress.step (.text (s ++ t)) := by
  simp [step, Chunk.toText, Node.pushText_append, Nat.add_assoc]

-- Reading characters one by one comes to the same as reading the texts they make.
theorem foldl_step_ofPieces (pieces : List (Piece Tag)) (progress : Progress) :
    (Chunk.ofPieces pieces).foldl step progress = pieces.foldl stepPiece progress := by
  induction pieces generalizing progress with
  | nil => rfl
  | cons piece pieces ih =>
    cases piece with
    | mark tag => exact ih _
    | char c =>
      rw [List.foldl_cons, ← ih]
      simp only [Chunk.ofPieces, stepPiece]
      split
      · next t chunks h => rw [h, List.foldl_cons, List.foldl_cons, step_text_append]; rfl
      · rfl

theorem foldl_stepPiece_chars (t : Text) (progress : Progress) :
    (t.map .char).foldl stepPiece progress = progress.step (.text t) := by
  induction t generalizing progress with
  | nil => exact (step_text_nil progress).symm
  | cons c t ih =>
    rw [List.map_cons, List.foldl_cons, ih, stepPiece, step_text_append]
    rfl

theorem headIssue_eq (head : Block.Head) (tag : Text) (offset : Nat) :
    headIssue head tag offset = if head.lacksItem then [⟨.withoutItem, tag, offset⟩] else [] := by
  cases head <;> simp [headIssue, Block.Head.lacksItem]

-- The pieces of a tree, read at any place, put the tree there and leave the open blocks alone.
theorem foldl_stepPiece_pieces (nodes : List Node) (progress : Progress) :
    (Node.piecesAll nodes).foldl stepPiece progress =
      { offset := progress.offset + Text.byteLength (Node.printAll nodes)
        nodes := Node.settleAll progress.nodes nodes
        blocks := progress.blocks
        issues := (Node.missingItemsAll progress.offset nodes).reverse ++ progress.issues } := by
  induction nodes using Node.row_induction generalizing progress with
  | nil => simp [Node.piecesAll, Node.settleAll, Node.missingItemsAll]
  | text t rest ih =>
    rw [Node.piecesAll, Node.pieces, List.foldl_append, foldl_stepPiece_chars, ih]
    simp [step, Chunk.toText, Node.settleAll, Node.settle, Node.missingItemsAll, Node.missingItems,
      Node.print, Nat.add_assoc]
  | block head openTag closeTag body rest ihBody ihRest =>
    rw [Node.piecesAll, Node.pieces, List.cons_append, List.foldl_cons, List.append_assoc,
      List.foldl_append, List.singleton_append, List.foldl_cons, ihBody, ihRest]
    simp [stepPiece, step, nearest?, OpenBlock.close, Chunk.toText, headIssue_eq, Node.settleAll,
      Node.settle, Node.missingItemsAll, Node.missingItems, Node.print, Nat.add_assoc,
      apply_ite List.reverse]

end Progress

namespace Node

theorem offset_of_mem_missingItems {nodes : List Node} {offset : Nat} {issue : Issue}
    (h : issue ∈ missingItemsAll offset nodes) :
    offset ≤ issue.offset ∧ issue.offset ≤ offset + Text.byteLength (printAll nodes) := by
  induction nodes using row_induction generalizing offset with
  | nil => simp [missingItemsAll] at h
  | text t rest ih =>
    simp only [missingItemsAll, missingItems, print, List.nil_append] at h
    obtain ⟨hlow, hhigh⟩ := ih h
    rw [printAll_text, Text.byteLength_append]
    omega
  | block head openTag closeTag body rest ihBody ihRest =>
    simp only [missingItemsAll, missingItems, print, List.mem_append] at h
    simp only [printAll_block, Text.byteLength_append]
    rcases h with (h | h) | h
    · split at h
      · rw [List.mem_singleton] at h
        subst h
        exact ⟨Nat.le_refl _, Nat.le_add_right _ _⟩
      · simp at h
    · obtain ⟨hlow, hhigh⟩ := ihBody h
      omega
    · obtain ⟨hlow, hhigh⟩ := ihRest h
      simp only [Text.byteLength_append] at hlow hhigh
      omega

-- The issues of a tree stand in the order of their places.
theorem pairwise_missingItems (nodes : List Node) (offset : Nat) :
    (missingItemsAll offset nodes).Pairwise fun one other => one.offset ≤ other.offset := by
  induction nodes using row_induction generalizing offset with
  | nil => simp [missingItemsAll]
  | text t rest ih => exact ih _
  | block head openTag closeTag body rest ihBody ihRest =>
    have hfirst : ∀ one ∈ (if head.lacksItem then [⟨.withoutItem, openTag, offset⟩] else [] :
        List Issue), one.offset = offset := by
      intro one hone
      split at hone
      · rw [List.mem_singleton] at hone
        rw [hone]
      · simp at hone
    simp only [missingItemsAll, missingItems, print, List.pairwise_append]
    refine ⟨⟨?_, ihBody _, ?_⟩, ihRest _, ?_⟩
    · split <;> simp
    · intro one hone other hother
      rw [hfirst one hone]
      exact Nat.le_trans (Nat.le_add_right _ _) (offset_of_mem_missingItems hother).1
    · intro one hone other hother
      have hrest := (offset_of_mem_missingItems hother).1
      simp only [Text.byteLength_append] at hrest
      rcases List.mem_append.mp hone with hone | hone
      · rw [hfirst one hone]
        omega
      · have hbody := (offset_of_mem_missingItems hone).2
        omega

end Node

namespace Template

-- Reading a printed tree gives the tree with its neighbouring texts put together.
theorem parse_printAll {nodes : List Node} (h : Node.LawfulAll nodes) :
    parse (Node.printAll nodes) =
      ⟨Node.printAll nodes, Node.joinTexts nodes, Node.missingItemsAll 0 nodes⟩ := by
  have hscan : Tag.mark.scan (Node.printAll nodes) = Node.piecesAll nodes := by
    simpa [Mark.scan_nil] using Node.scan_printAll_append h []
  have hsorted : (Node.missingItemsAll 0 nodes).mergeSort (fun one other => one.offset ≤ other.offset) =
      Node.missingItemsAll 0 nodes :=
    List.mergeSort_of_pairwise ((Node.pairwise_missingItems nodes 0).imp decide_eq_true)
  simp only [parse, chunks, hscan, Progress.foldl_step_ofPieces, Progress.foldl_stepPiece_pieces]
  simp [Progress.finish, Progress.giveUpAll, Progress.start, Node.joinTexts, hsorted]

end Template

namespace Node

theorem pushText_of_ne_nil {t : Text} {before : List Node} (ht : t ≠ [])
    (hb : ∀ node ∈ before.head?, node.text? = none) : pushText t before = .text t :: before := by
  cases before with
  | nil => simp [pushText, ht]
  | cons node before =>
    cases node with
    | text s => simp [text?] at hb
    | block head openTag closeTag body => simp [pushText, ht]

-- A canonical tree is put behind other nodes as it is, unless two texts meet there.
theorem settleAll_of_canonical {nodes before : List Node} (h : CanonicalAll nodes)
    (hb : (∀ node ∈ nodes.head?, node.text? = none) ∨ ∀ node ∈ before.head?, node.text? = none) :
    settleAll before nodes = nodes.reverse ++ before := by
  induction nodes using row_induction generalizing before with
  | nil => rfl
  | text t rest ih =>
    obtain ⟨ht, hnext, hrest⟩ := h
    have hbefore : ∀ node ∈ before.head?, node.text? = none :=
      hb.resolve_left (by simp [text?])
    rw [settleAll, settle, pushText_of_ne_nil ht hbefore, ih hrest (.inl (hnext rfl)),
      List.reverse_cons, List.append_assoc, List.singleton_append]
  | block head openTag closeTag body rest ihBody ihRest =>
    obtain ⟨hbody, -, hrest⟩ := h
    rw [settleAll, settle, ihBody hbody (.inr (by simp)), ihRest hrest (.inr (by simp [text?])),
      List.append_nil, List.reverse_reverse, List.reverse_cons, List.append_assoc,
      List.singleton_append]

theorem joinTexts_of_canonical {nodes : List Node} (h : CanonicalAll nodes) :
    joinTexts nodes = nodes := by
  rw [joinTexts, settleAll_of_canonical h (.inr (by simp)), List.append_nil, List.reverse_reverse]

end Node

namespace Template

-- A well-formed tree, written with no kind of block expanded and read again, is the same tree; the
-- issues found on the way are its loops without an item.
theorem parse_expand_none (template : Template) (params : Params)
    (h : Node.WellFormed template.nodes) :
    (parse (template.expand params .none)).nodes = template.nodes ∧
      (parse (template.expand params .none)).issues = Node.missingItemsAll 0 template.nodes := by
  have hprint : template.expand params .none = Node.printAll template.nodes :=
    Node.expansion_none params false template.nodes
  rw [hprint, parse_printAll h.lawful]
  exact ⟨Node.joinTexts_of_canonical h.canonical, rfl⟩

-- A loop with an empty item in mixed case, around a test that quotes a tag.
def quotedTag : Template where
  source := []
  nodes :=
    [.text "a < b ".toList,
      .block (.loop (Loop.Header.read "item=\x22\x22".toList)) "<forEach item=\x22\x22>".toList
        "</FOREACH>".toList
        [.block (.conditional "x <set> y".toList) "<if\ttest=\x22x <set> y\x22>".toList "</if>".toList
          [.text "c".toList]]]
  issues := []

theorem parse_expand_none_quotedTag :
    Node.WellFormed quotedTag.nodes ∧
      (parse (quotedTag.expand [] .none)).nodes = quotedTag.nodes ∧
      (parse (quotedTag.expand [] .none)).issues =
        [⟨.withoutItem, "<forEach item=\x22\x22>".toList, 6⟩] := by
  have hcanonical : Node.CanonicalAll quotedTag.nodes := by
    simp [quotedTag, Node.CanonicalAll, Node.Canonical, Node.text?]
  have hlawful : Node.LawfulAll quotedTag.nodes := by
    refine Node.lawfulAll_text.mpr ⟨by decide,
      Node.lawfulAll_block.mpr ⟨⟨?_, rfl⟩, ?_, Node.lawfulAll_nil⟩⟩
    · exact ⟨"<forEach".toList, [' '], "item=\x22\x22".toList, rfl, by decide, rfl, by decide, rfl, rfl⟩
    · refine Node.lawfulAll_block.mpr ⟨⟨⟨['\t'], by decide, rfl, by decide, by decide, rfl⟩, rfl⟩, ?_,
        Node.lawfulAll_nil⟩
      exact Node.lawfulAll_text.mpr ⟨by decide, Node.lawfulAll_nil⟩
  have hread := parse_expand_none quotedTag [] ⟨hcanonical, hlawful⟩
  exact ⟨⟨hcanonical, hlawful⟩, hread.1, hread.2.trans (by decide +kernel)⟩

end Template

end SqlPreview
