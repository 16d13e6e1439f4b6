import Mathlib.Data.List.Nodup
import SqlPreview.Proofs.Template.Place

namespace SqlPreview

-- Is the issue about a tag that has no partner?
def Issue.Kind.isUnpaired : Issue.Kind → Bool
  | .withoutItem => false
  | .unclosed | .unopened => true

namespace Token

-- The issue of a tag that has no partner.
def unpaired (token : Token) : Issue :=
  match token.tag.role with
  | .opens _ => ⟨.unclosed, token.tag.text, token.offset⟩
  | .closes _ => ⟨.unopened, token.tag.text, token.offset⟩

-- The issue of a loop that has no item.
def withoutItem (token : Token) : Issue :=
  ⟨.withoutItem, token.tag.text, token.offset⟩

def lacksItem (token : Token) : Bool :=
  match token.tag.role with
  | .opens head => head.lacksItem
  | .closes _ => false

theorem unpaired_offset (token : Token) : token.unpaired.offset = token.offset := by
  unfold unpaired
  split <;> rfl

theorem unpaired_tag (token : Token) : token.unpaired.tag = token.tag.text := by
  unfold unpaired
  split <;> rfl

theorem isUnpaired_unpaired (token : Token) : token.unpaired.kind.isUnpaired := by
  unfold unpaired
  split <;> rfl

theorem nodup_map_offset {tokens : List Token}
    (h : tokens.Pairwise fun one other => one.offset < other.offset) :
    (tokens.map offset).Nodup :=
  List.pairwise_map.mpr (h.imp Nat.ne_of_lt)

-- Both tags of every pair.
def ofPairs (pairs : List (Token × Token)) : List Token :=
  pairs.flatMap fun pair => [pair.1, pair.2]

theorem length_ofPairs (pairs : List (Token × Token)) : (ofPairs pairs).length = 2 * pairs.length := by
  induction pairs with
  | nil => rfl
  | cons pair pairs ih =>
    rw [ofPairs, List.flatMap_cons, List.length_append, ← ofPairs, ih, List.length_cons]
    simp only [List.length_cons, List.length_nil]
    omega

theorem perm_ofPairs {pairs pairs' : List (Token × Token)} (h : pairs.Perm pairs') :
    (ofPairs pairs).Perm (ofPairs pairs') :=
  h.flatMap_right _

end Token

theorem OpenBlock.unpaired_token (block : OpenBlock) : block.token.unpaired = block.unclosed :=
  rfl

-- The issues found while the tags `seen` are read, last first, of which `lost` have no partner.
structure Recorded (seen lost : List Token) (issues : List Issue) : Prop where
  unpaired : (issues.filter fun issue => issue.kind.isUnpaired) = lost.map Token.unpaired
  missing : (issues.filter fun issue => !issue.kind.isUnpaired) =
    ((seen.filter Token.lacksItem).map Token.withoutItem).reverse
  order : issues.Pairwise fun later earlier =>
    later.kind.isUnpaired = false → earlier.offset < later.offset

namespace Recorded

variable {seen lost : List Token} {issues : List Issue}

-- Every issue is the issue of a tag.
theorem exists_token (h : Recorded seen lost issues) {issue : Issue} (hi : issue ∈ issues) :
    (issue.kind.isUnpaired ∧ ∃ token ∈ lost, issue = token.unpaired) ∨
      (issue.kind.isUnpaired = false ∧ ∃ token ∈ seen, token.lacksItem ∧ issue = token.withoutItem) := by
  cases hk : issue.kind.isUnpaired with
  | true =>
    have hm : issue ∈ lost.map Token.unpaired := by
      rw [← h.unpaired]
      exact List.mem_filter.mpr ⟨hi, hk⟩
    obtain ⟨token, ht, rfl⟩ := List.mem_map.mp hm
    exact .inl ⟨rfl, token, ht, rfl⟩
  | false =>
    have hm : issue ∈ ((seen.filter Token.lacksItem).map Token.withoutItem).reverse := by
      rw [← h.missing]
      exact List.mem_filter.mpr ⟨hi, by simp [hk]⟩
    obtain ⟨token, ht, rfl⟩ := List.mem_map.mp (List.mem_reverse.mp hm)
    have hf := List.mem_filter.mp ht
    exact .inr ⟨rfl, token, hf.1, hf.2, rfl⟩

theorem opens (h : Recorded seen lost issues) {token : Token}
    (hlt : ∀ issue ∈ issues, issue.offset < token.offset) :
    Recorded (seen ++ [token]) lost
      ((if token.lacksItem then [token.withoutItem] else []) ++ issues) := by
  refine ⟨?_, ?_, ?_⟩
  · rw [List.filter_append, h.unpaired]
    split <;> rfl
  · rw [List.filter_append, h.missing, List.filter_append, List.map_append, List.reverse_append]
    cases hitem : token.lacksItem <;> simp [hitem, Token.withoutItem, Issue.Kind.isUnpaired]
  · split
    · exact List.pairwise_cons.mpr ⟨fun earlier he _ => hlt earlier he, h.order⟩
    · exact h.order

theorem closes (h : Recorded seen lost issues) {token : Token} (ht : token.lacksItem = false) :
    Recorded (seen ++ [token]) lost issues := by
  refine ⟨h.unpaired, ?_, h.order⟩
  rw [List.filter_append, List.filter_cons_of_neg (by simp [ht]), List.filter_nil, List.append_nil]
  exact h.missing

theorem lose (h : Recorded seen lost issues) (token : Token) :
    Recorded seen (token :: lost) (token.unpaired :: issues) := by
  have hk := token.isUnpaired_unpaired
  refine ⟨?_, ?_, ?_⟩
  · simp only [List.filter_cons, hk, if_true, h.unpaired, List.map_cons]
  · rw [List.filter_cons_of_neg (by simp [hk])]
    exact h.missing
  · refine List.pairwise_cons.mpr ⟨fun earlier _ hfalse => ?_, h.order⟩
    simp [hk] at hfalse

-- Blocks that are given up are reported one after another.
theorem giveUp (h : Recorded seen lost issues) (blocks : List OpenBlock) :
    Recorded seen ((blocks.map OpenBlock.token).reverse ++ lost)
      ((blocks.map OpenBlock.unclosed).reverse ++ issues) := by
  induction blocks generalizing lost issues with
  | nil => exact h
  | cons block blocks ih =>
    have hlose := ih (h.lose block.token)
    rw [OpenBlock.unpaired_token] at hlose
    simpa using hlose

end Recorded

namespace Progress

-- Every tag that has been read waits in an open block, or is one of a pair, or is lost.
structure Accounts (seen lost : List Token) (progress : Progress) : Prop where
  placed : progress.Placed
  ordered : seen.Pairwise fun one other => one.offset < other.offset
  seen_lt : ∀ token ∈ seen, token.offset < progress.offset
  shared : seen.Perm
    (progress.blocks.map OpenBlock.token ++ (Token.ofPairs progress.pairs ++ lost))
  recorded : Recorded seen lost progress.issues

theorem accounts_start : Accounts [] [] start := by
  refine ⟨placed_start, List.Pairwise.nil, by simp, ?_, rfl, rfl, List.Pairwise.nil⟩
  exact List.Perm.refl _

section Step

variable {seen lost : List Token} {progress : Progress}

theorem Accounts.mem_seen_of_mem_lost (h : Accounts seen lost progress) {token : Token}
    (ht : token ∈ lost) : token ∈ seen :=
  h.shared.mem_iff.mpr (List.mem_append_right _ (List.mem_append_right _ ht))

theorem Accounts.issue_lt (h : Accounts seen lost progress) {issue : Issue}
    (hi : issue ∈ progress.issues) : issue.offset < progress.offset := by
  rcases h.recorded.exists_token hi with ⟨-, token, ht, rfl⟩ | ⟨-, token, ht, -, rfl⟩
  · rw [Token.unpaired_offset]
    exact h.seen_lt token (h.mem_seen_of_mem_lost ht)
  · exact h.seen_lt token ht

theorem Accounts.append_lt (h : Accounts seen lost progress) {tag : Tag} (ht : tag.text ≠ []) :
    ∀ token ∈ seen ++ [(⟨progress.offset, tag⟩ : Token)],
      token.offset < (progress.step (.tag tag)).offset := by
  have hpos := Text.byteLength_pos ht
  have hoffset : (progress.step (.tag tag)).offset = progress.offset + Text.byteLength tag.text :=
    offset_step progress (.tag tag)
  intro token hm
  rcases List.mem_append.mp hm with hm | hm
  · have hlt := h.seen_lt token hm
    omega
  · rw [List.mem_singleton.mp hm]
    simp only
    omega

theorem Accounts.step_text (h : Accounts seen lost progress) (t : Text) :
    Accounts seen lost (progress.step (.text t)) := by
  have hpairs : (progress.step (.text t)).pairs = progress.pairs :=
    (grown_places_step_text progress t).pairs
  refine ⟨h.placed.step _, h.ordered, fun token ht => ?_, ?_, h.recorded⟩
  · have hlt := h.seen_lt token ht
    rw [offset_step]
    omega
  · rw [hpairs]
    exact h.shared

theorem Accounts.step_opens (h : Accounts seen lost progress) {tag : Text} (ht : tag ≠ [])
    (head : Block.Head) :
    Accounts (seen ++ [⟨progress.offset, tag, .opens head⟩]) lost
      (progress.step (.tag ⟨tag, .opens head⟩)) := by
  let token : Token := ⟨progress.offset, tag, .opens head⟩
  have hpairs : (progress.step (.tag ⟨tag, .opens head⟩)).pairs = progress.pairs := by
    rw [pairs, places_step_opens, pairs]
  have hblocks : (progress.step (.tag ⟨tag, .opens head⟩)).blocks.map OpenBlock.token =
      token :: progress.blocks.map OpenBlock.token := rfl
  have hissues : (progress.step (.tag ⟨tag, .opens head⟩)).issues =
      (if token.lacksItem then [token.withoutItem] else []) ++ progress.issues :=
    congrArg (· ++ progress.issues) (headIssue_eq head tag progress.offset)
  refine ⟨h.placed.step _, Token.pairwise_append_singleton h.ordered h.seen_lt, h.append_lt ht, ?_, ?_⟩
  · rw [hpairs, hblocks, List.cons_append]
    exact (h.shared.append_right [token]).trans (List.perm_append_singleton _ _)
  · rw [hissues]
    exact h.recorded.opens fun _ hi => h.issue_lt hi

theorem Accounts.step_closes (h : Accounts seen lost progress) {tag : Text} (ht : tag ≠ [])
    (kind : Block.Kind) :
    ∃ lost', Accounts (seen ++ [⟨progress.offset, tag, .closes kind⟩]) lost'
      (progress.step (.tag ⟨tag, .closes kind⟩)) := by
  let token : Token := ⟨progress.offset, tag, .closes kind⟩
  have hrecorded : Recorded (seen ++ [token]) lost progress.issues := h.recorded.closes rfl
  rcases Progress.step_closes h.placed ht kind with
    ⟨inner, block, outer, hblocks, -, -, hnext, hissues, hpairs, -⟩ |
    ⟨-, hnext, hissues, hpairs, -⟩
  · refine ⟨(inner.map OpenBlock.token).reverse ++ lost, h.placed.step _, Token.pairwise_append_singleton h.ordered h.seen_lt,
      h.append_lt ht, ?_, ?_⟩
    · rw [hnext, List.perm_iff_count]
      intro other
      have hcount := h.shared.count_eq other
      have hpair := (Token.perm_ofPairs hpairs).count_eq other
      simp only [hblocks, List.map_append, List.map_cons, List.count_append, List.count_cons,
        List.count_reverse, List.count_nil, Token.ofPairs, List.flatMap_cons] at hcount hpair ⊢
      omega
    · rw [hissues]
      exact hrecorded.giveUp inner
  · refine ⟨token :: lost, h.placed.step _, Token.pairwise_append_singleton h.ordered h.seen_lt, h.append_lt ht, ?_, ?_⟩
    · rw [hnext, hpairs, List.perm_iff_count]
      intro other
      have hcount := h.shared.count_eq other
      simp only [List.count_append, List.count_cons, List.count_nil, token] at hcount ⊢
      omega
    · rw [hissues]
      exact hrecorded.lose token

theorem Accounts.step (h : Accounts seen lost progress) {chunk : Chunk}
    (ht : ∀ tag, chunk = .tag tag → tag.text ≠ []) :
    ∃ lost', Accounts (seen ++ Token.ofChunks progress.offset [chunk]) lost' (progress.step chunk) := by
  match chunk with
  | .text t =>
    rw [Token.ofChunks, Token.ofChunks, List.append_nil]
    exact ⟨lost, h.step_text t⟩
  | .tag ⟨tag, .opens head⟩ => exact ⟨lost, h.step_opens (ht _ rfl) head⟩
  | .tag ⟨tag, .closes kind⟩ => exact h.step_closes (ht _ rfl) kind

theorem Accounts.foldl_step {chunks : List Chunk} (h : Accounts seen lost progress)
    (ht : ∀ tag, .tag tag ∈ chunks → tag.text ≠ []) :
    ∃ lost', Accounts (seen ++ Token.ofChunks progress.offset chunks) lost'
      (chunks.foldl Progress.step progress) := by
  induction chunks generalizing seen lost progress with
  | nil => exact ⟨lost, by simpa [Token.ofChunks] using h⟩
  | cons chunk chunks ih =>
    obtain ⟨lost', hstep⟩ := h.step fun tag hc => ht tag (hc ▸ List.mem_cons_self)
    rw [Token.ofChunks_cons, ← offset_step, ← List.append_assoc]
    exact ih hstep fun tag hm => ht tag (List.mem_cons_of_mem _ hm)

end Step

end Progress

namespace Node

theorem length_filterMap_placed (nodes : List Node) (offset : Nat) :
    ((placedAll offset nodes).filterMap pair?).length = blockCountAll nodes := by
  induction nodes using row_induction generalizing offset with
  | nil => rfl
  | text t rest ih =>
    rw [placedAll, placed, List.singleton_append, List.filterMap_cons_none rfl, ih, blockCountAll,
      blockCount, Nat.zero_add]
  | block head openTag closeTag body rest ihBody ihRest =>
    rw [placedAll, placed, List.cons_append, List.filterMap_cons]
    simp only [pair?, List.length_cons, List.filterMap_append, List.length_append, ihBody, ihRest,
      blockCountAll, blockCount]
    omega

theorem length_pairs (nodes : List Node) : (pairs nodes).length = blockCountAll nodes :=
  length_filterMap_placed nodes 0

end Node

namespace Issue

-- Does an issue stand no later in a source than another one?
def notAfter (one other : Issue) : Bool :=
  one.offset ≤ other.offset

theorem notAfter_trans (one two three : Issue) (h : one.notAfter two) (h' : two.notAfter three) :
    one.notAfter three := by
  simp only [notAfter, decide_eq_true_eq] at h h' ⊢
  omega

theorem notAfter_total (one two : Issue) : (one.notAfter two || two.notAfter one) = true := by
  simp only [notAfter, Bool.or_eq_true, decide_eq_true_eq]
  omega

-- Sorting does not touch issues that are in order among themselves.
theorem filter_mergeSort {p : Issue → Bool} {issues : List Issue}
    (h : (issues.filter p).Pairwise fun one other => one.notAfter other) :
    (issues.mergeSort notAfter).filter p = issues.filter p := by
  have hsub : (issues.filter p).Sublist (issues.mergeSort notAfter) :=
    List.sublist_mergeSort notAfter_trans notAfter_total h List.filter_sublist
  have hfilter := hsub.filter p
  rw [List.filter_filter] at hfilter
  simp only [Bool.and_self] at hfilter
  have hlength := ((List.mergeSort_perm issues notAfter).filter p).length_eq
  exact (hfilter.eq_of_length hlength.symm).symm

-- Issues at one place stay in the order in which they were found.
theorem sublist_of_sublist_mergeSort {one other : Issue} {issues : List Issue}
    (h : [one, other].Sublist (issues.mergeSort notAfter)) (ho : one.offset = other.offset) :
    [one, other].Sublist issues := by
  let here : Issue → Bool := fun issue => issue.offset == other.offset
  have hsorted : (issues.filter here).Pairwise fun one other => one.notAfter other := by
    apply List.pairwise_of_forall_mem_list
    intro a ha b hb
    have hoa := eq_of_beq (List.mem_filter.mp ha).2
    have hob := eq_of_beq (List.mem_filter.mp hb).2
    simp [notAfter, hoa, hob]
  have hpair := h.filter here
  rw [filter_mergeSort hsorted, List.filter_eq_self.mpr (by simp [here, ho])] at hpair
  exact hpair.trans List.filter_sublist

end Issue

namespace Recorded

variable {seen lost : List Token} {issues : List Issue}

-- Once sorted, the issues stand in the order of their places. Two of them stand at one place only if a
-- loop without an item has not been closed either, and then the item is missed first.
theorem pairwise_mergeSort (h : Recorded seen lost issues) (hlost : lost ⊆ seen)
    (hseen : seen.Pairwise fun one other => one.offset < other.offset)
    (hnodup : (lost.map Token.offset).Nodup) :
    (issues.reverse.mergeSort Issue.notAfter).Pairwise fun one other =>
      one.offset < other.offset ∨
        one.offset = other.offset ∧ one.kind = .withoutItem ∧ other.kind = .unclosed := by
  apply List.pairwise_iff_forall_sublist.mpr
  intro one other hsub
  have hle := List.pairwise_iff_forall_sublist.mp
    (List.pairwise_mergeSort Issue.notAfter_trans Issue.notAfter_total issues.reverse) hsub
  rcases Nat.lt_or_eq_of_le (of_decide_eq_true hle) with hlt | heq
  · exact .inl hlt
  refine .inr ⟨heq, ?_⟩
  have hchron := Issue.sublist_of_sublist_mergeSort hsub heq
  have hfound : [other, one].Sublist issues := by simpa using List.reverse_sublist.mpr hchron
  have horder := List.pairwise_iff_forall_sublist.mp h.order hfound
  have hother : other.kind.isUnpaired := by
    cases hk : other.kind.isUnpaired with
    | true => rfl
    | false =>
      have hlt := horder hk
      omega
  obtain ⟨token, ht, rfl⟩ : ∃ token ∈ lost, other = token.unpaired := by
    rcases h.exists_token (hfound.subset List.mem_cons_self) with ⟨-, hl⟩ | ⟨hk, -⟩
    · exact hl
    · simp [hother] at hk
  rcases h.exists_token (hfound.subset (List.mem_cons_of_mem _ List.mem_cons_self)) with
    ⟨hone, -⟩ | ⟨-, loop, hloop, hlacks, rfl⟩
  · -- two tags without a partner never share a place
    have hpair := (hfound.filter fun issue => issue.kind.isUnpaired).map Issue.offset
    rw [h.unpaired, List.map_map] at hpair
    have hoffset : Issue.offset ∘ Token.unpaired = Token.offset := funext Token.unpaired_offset
    simp only [List.filter_cons, hone, hother, if_true, List.filter_nil, List.map_cons, List.map_nil,
      heq, hoffset] at hpair
    exact absurd hpair (List.nodup_iff_sublist.mp hnodup _)
  · have hsame : loop = token := by
      apply List.inj_on_of_nodup_map (Token.nodup_map_offset hseen) hloop (hlost ht)
      exact heq.trans token.unpaired_offset
    subst hsame
    refine ⟨rfl, ?_⟩
    unfold Token.unpaired
    unfold Token.lacksItem at hlacks
    split
    · rfl
    · next hrole => simp [hrole] at hlacks

end Recorded

namespace Template

-- The reading of a source accounts for all of its tags.
theorem exists_accounts (source : Text) :
    ∃ lost progress, Progress.Accounts (tokens source) lost progress ∧
      (parse source).nodes = progress.finish.1 ∧ (parse source).issues = progress.finish.2 := by
  have hwritten : ∀ tag, .tag tag ∈ chunks source → tag.text ≠ [] := fun _ =>
    text_ne_nil_of_mem_chunks
  obtain ⟨lost, h⟩ := Progress.accounts_start.foldl_step hwritten
  exact ⟨lost, _, h, rfl, rfl⟩

theorem exists_recorded (source : Text) :
    ∃ lost issues, (tokens source).Perm (Token.ofPairs (Node.pairs (parse source).nodes) ++ lost) ∧
      Recorded (tokens source) lost issues ∧
      (parse source).issues = issues.reverse.mergeSort Issue.notAfter := by
  obtain ⟨lost, progress, h, hnodes, hissues⟩ := exists_accounts source
  refine ⟨_, _, ?_, h.recorded.giveUp progress.blocks, ?_⟩
  · have hpairs : Node.pairs (parse source).nodes = progress.pairs := by
      rw [hnodes]
      exact progress.grown_places_finish.pairs
    rw [hpairs, List.perm_iff_count]
    intro token
    have hcount := h.shared.count_eq token
    simp only [List.count_append, List.count_reverse] at hcount ⊢
    omega
  · rw [hissues, ← Progress.giveUpAll_snd progress.blocks progress.nodes]
    rfl

-- Every issue is about a tag of the source.
theorem exists_token_of_mem_issues {source : Text} {issue : Issue}
    (h : issue ∈ (parse source).issues) : ∃ token ∈ tokens source, issue.tag = token.tag.text := by
  obtain ⟨lost, issues, hshared, hrecorded, hissues⟩ := exists_recorded source
  have hmem : issue ∈ issues := by
    rw [hissues, List.mem_mergeSort, List.mem_reverse] at h
    exact h
  rcases hrecorded.exists_token hmem with ⟨-, token, ht, rfl⟩ | ⟨-, token, ht, -, rfl⟩
  · exact ⟨token, hshared.mem_iff.mpr (List.mem_append_right _ ht), token.unpaired_tag⟩
  · exact ⟨token, ht, rfl⟩

theorem countP_isUnpaired (issues : List Issue) :
    (issues.countP fun issue => issue.kind.isUnpaired) =
      (issues.countP fun issue => issue.kind = .unclosed) +
        issues.countP fun issue => issue.kind = .unopened := by
  induction issues with
  | nil => rfl
  | cons issue issues ih =>
    simp only [List.countP_cons, ih]
    cases issue.kind <;> simp [Issue.Kind.isUnpaired] <;> omega

-- The issues stand in the order of their places.
theorem pairwise_offset_issues (source : Text) :
    (parse source).issues.Pairwise fun one other => one.offset ≤ other.offset :=
  (List.pairwise_mergeSort Issue.notAfter_trans Issue.notAfter_total _).imp of_decide_eq_true

-- How the issues of a template account for the tags of its source.
structure IssuesAccount (source : Text) (template : Template) : Prop where
  count : (Tag.mark.all source).length =
    2 * template.blockCount + (template.issues.countP fun issue => issue.kind = .unclosed) +
      (template.issues.countP fun issue => issue.kind = .unopened)
  distinct : ((template.issues.filter fun issue => issue.kind.isUnpaired).map Issue.offset).Nodup
  unpaired : ∀ issue ∈ template.issues, issue.kind.isUnpaired →
    ∃ token ∈ tokens source, issue = token.unpaired
  missing : (template.issues.filter fun issue => issue.kind = .withoutItem) =
    ((tokens source).filter Token.lacksItem).map Token.withoutItem
  quoted : ∀ issue ∈ template.issues, ∃ before after,
    source = before ++ (issue.tag ++ after) ∧ Text.byteLength before = issue.offset
  ordered : template.issues.Pairwise fun one other =>
    one.offset < other.offset ∨
      one.offset = other.offset ∧ one.kind = .withoutItem ∧ other.kind = .unclosed

-- Every tag is one of two tags of a block, or is reported once as a tag without a partner; every loop
-- without an item is reported as such. Each issue quotes the source at its place, and the issues stand
-- in the order of their places.
theorem issues_account (source : Text) : IssuesAccount source (parse source) := by
  let template := parse source
  obtain ⟨lost, issues, hshared, hrecorded, hissues⟩ := exists_recorded source
  have hperm : template.issues.Perm issues :=
    hissues ▸ (List.mergeSort_perm _ _).trans (List.reverse_perm issues)
  have hlost : lost ⊆ tokens source := fun token ht =>
    hshared.mem_iff.mpr (List.mem_append_right _ ht)
  have hordered := pairwise_tokens source
  have hnodup : (lost.map Token.offset).Nodup := by
    have hall := (hshared.map Token.offset).nodup_iff.mp (Token.nodup_map_offset hordered)
    rw [List.map_append] at hall
    exact hall.of_append_right
  have htoken : ∀ issue ∈ template.issues, ∃ token ∈ tokens source,
      issue.tag = token.tag.text ∧ issue.offset = token.offset ∧
        (issue.kind.isUnpaired → issue = token.unpaired) := by
    intro issue hi
    rcases hrecorded.exists_token (hperm.mem_iff.mp hi) with
      ⟨-, token, ht, rfl⟩ | ⟨hk, token, ht, -, rfl⟩
    · exact ⟨token, hlost ht, token.unpaired_tag, token.unpaired_offset, fun _ => rfl⟩
    · exact ⟨token, ht, rfl, rfl, fun hfalse => by simp [hk] at hfalse⟩
  have hmissed : (fun issue : Issue => decide (issue.kind = .withoutItem)) =
      fun issue => !issue.kind.isUnpaired := by
    funext issue
    cases issue.kind <;> rfl
  have hchron : (issues.reverse.filter fun issue => !issue.kind.isUnpaired) =
      ((tokens source).filter Token.lacksItem).map Token.withoutItem := by
    rw [List.filter_reverse, hrecorded.missing, List.reverse_reverse]
  refine ⟨?_, ?_, ?_, ?_, ?_, ?_⟩
  · have hlength := congrArg List.length hrecorded.unpaired
    rw [← List.countP_eq_length_filter, List.length_map, ← hperm.countP_eq, countP_isUnpaired] at hlength
    rw [← map_tag_tokens, List.length_map, hshared.length_eq, List.length_append,
      Token.length_ofPairs, Node.length_pairs, ← hlength]
    exact (Nat.add_assoc _ _ _).symm
  · have hunpaired := (hperm.filter fun issue => issue.kind.isUnpaired).map Issue.offset
    rw [hrecorded.unpaired, List.map_map] at hunpaired
    have hoffset : Issue.offset ∘ Token.unpaired = Token.offset := funext Token.unpaired_offset
    rw [hoffset] at hunpaired
    exact hunpaired.nodup_iff.mpr hnodup
  · intro issue hi hk
    obtain ⟨token, ht, -, -, hissue⟩ := htoken issue hi
    exact ⟨token, ht, hissue hk⟩
  · rw [hmissed, hissues, Issue.filter_mergeSort, hchron]
    rw [hchron, List.pairwise_map]
    refine (hordered.filter Token.lacksItem).imp fun hlt => ?_
    exact decide_eq_true (Nat.le_of_lt hlt)
  · intro issue hi
    obtain ⟨token, ht, htag, hoffset, -⟩ := htoken issue hi
    rw [htag, hoffset]
    exact exists_append_of_mem_tokens ht
  · rw [hissues]
    exact hrecorded.pairwise_mergeSort hlost hordered hnodup

end Template

end SqlPreview
