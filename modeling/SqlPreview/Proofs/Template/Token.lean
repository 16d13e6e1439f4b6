import SqlPreview.Proofs.Template.Origin
import SqlPreview.Proofs.Template.Verbatim

namespace SqlPreview

-- A tag of a source, with the offset of its first byte.
structure Token where
  offset : Nat
  tag : Tag
deriving DecidableEq, Repr

namespace Token

-- The tags among chunks of which the first one begins at `offset`.
def ofChunks (offset : Nat) : List Chunk → List Token
  | [] => []
  | .text t :: chunks => ofChunks (offset + Text.byteLength t) chunks
  | .tag tag :: chunks => ⟨offset, tag⟩ :: ofChunks (offset + Text.byteLength tag.text) chunks

theorem ofChunks_cons (offset : Nat) (chunk : Chunk) (chunks : List Chunk) :
    ofChunks offset (chunk :: chunks) =
      ofChunks offset [chunk] ++ ofChunks (offset + Text.byteLength chunk.toText) chunks := by
  cases chunk <;> rfl

-- The text of a token stands at its offset.
theorem exists_append_of_mem_ofChunks {token : Token} {offset : Nat} {chunks : List Chunk}
    (h : token ∈ ofChunks offset chunks) :
    ∃ before after, chunks.flatMap Chunk.toText = before ++ (token.tag.text ++ after) ∧
      token.offset = offset + Text.byteLength before := by
  induction chunks generalizing offset with
  | nil => simp [ofChunks] at h
  | cons chunk chunks ih =>
    rw [ofChunks_cons, List.mem_append] at h
    rcases h with h | h
    · cases chunk with
      | text t => simp [ofChunks] at h
      | tag tag =>
        obtain rfl : token = ⟨offset, tag⟩ := by simpa [ofChunks] using h
        exact ⟨[], chunks.flatMap Chunk.toText, rfl, rfl⟩
    · obtain ⟨before, after, htext, hoffset⟩ := ih h
      refine ⟨chunk.toText ++ before, after, ?_, ?_⟩
      · rw [List.flatMap_cons, htext, List.append_assoc]
      · rw [hoffset, Text.byteLength_append, Nat.add_assoc]

theorem pairwise_ofChunks {chunks : List Chunk} (offset : Nat)
    (h : ∀ tag, .tag tag ∈ chunks → tag.text ≠ []) :
    (ofChunks offset chunks).Pairwise fun one other => one.offset < other.offset := by
  induction chunks generalizing offset with
  | nil => exact List.Pairwise.nil
  | cons chunk chunks ih =>
    have hrest := fun offset => ih offset fun tag ht => h tag (List.mem_cons_of_mem _ ht)
    cases chunk with
    | text t => exact hrest _
    | tag tag =>
      refine List.pairwise_cons.mpr ⟨fun other ho => ?_, hrest _⟩
      have hpos := Text.byteLength_pos (h tag List.mem_cons_self)
      obtain ⟨before, -, -, hoffset⟩ := exists_append_of_mem_ofChunks ho
      simp only
      omega

-- A token behind all others of a row goes to its end.
theorem pairwise_append_singleton {seen : List Token} {next : Token}
    (h : seen.Pairwise fun one other => one.offset < other.offset)
    (hnext : ∀ token ∈ seen, token.offset < next.offset) :
    (seen ++ [next]).Pairwise fun one other => one.offset < other.offset := by
  refine List.pairwise_append.mpr ⟨h, List.pairwise_singleton _ _, fun one ho other hm => ?_⟩
  rw [List.mem_singleton.mp hm]
  exact hnext one ho

theorem map_tag_ofChunks_ofPieces (offset : Nat) (pieces : List (Piece Tag)) :
    (ofChunks offset (Chunk.ofPieces pieces)).map tag = pieces.filterMap Piece.mark? := by
  induction pieces generalizing offset with
  | nil => rfl
  | cons piece pieces ih =>
    cases piece with
    | mark found => exact congrArg (found :: ·) (ih _)
    | char c =>
      rw [List.filterMap_cons_none rfl]
      simp only [Chunk.ofPieces]
      split
      · next t chunks hc =>
        rw [ofChunks, ← ih (offset + c.utf8Size), hc, ofChunks, Text.byteLength_cons, Nat.add_assoc]
      · exact ih _

end Token

namespace Template

def tokens (source : Text) : List Token :=
  Token.ofChunks 0 (chunks source)

-- The tokens are the tags that scanning the source finds.
theorem map_tag_tokens (source : Text) : (tokens source).map Token.tag = Tag.mark.all source :=
  Token.map_tag_ofChunks_ofPieces 0 (Tag.mark.scan source)

theorem text_ne_nil_of_mem_all {source : Text} {tag : Tag} (h : tag ∈ Tag.mark.all source) :
    tag.text ≠ [] := by
  obtain ⟨s, rest, -, hr⟩ := Mark.exists_read?_of_mem_all Tag.leavesEnd_mark h
  exact (Tag.append_of_read? hr).2

theorem text_ne_nil_of_mem_chunks {source : Text} {tag : Tag} (h : .tag tag ∈ chunks source) :
    tag.text ≠ [] :=
  text_ne_nil_of_mem_all (List.mem_filterMap.mpr ⟨_, Chunk.mem_of_tag_mem_ofPieces h, rfl⟩)

theorem text_ne_nil_of_mem_tokens {source : Text} {token : Token} (h : token ∈ tokens source) :
    token.tag.text ≠ [] :=
  text_ne_nil_of_mem_all (map_tag_tokens source ▸ List.mem_map_of_mem h)

theorem pairwise_tokens (source : Text) :
    (tokens source).Pairwise fun one other => one.offset < other.offset :=
  Token.pairwise_ofChunks 0 fun _ h => text_ne_nil_of_mem_chunks h

-- The text of a token is the part of the source that begins at its offset.
theorem exists_append_of_mem_tokens {source : Text} {token : Token} (h : token ∈ tokens source) :
    ∃ before after, source = before ++ (token.tag.text ++ after) ∧
      Text.byteLength before = token.offset := by
  obtain ⟨before, after, htext, hoffset⟩ := Token.exists_append_of_mem_ofChunks h
  rw [flatMap_toText_chunks] at htext
  exact ⟨before, after, htext, by omega⟩

end Template

end SqlPreview
