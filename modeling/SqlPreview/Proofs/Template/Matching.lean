import SqlPreview.Proofs.Template.Conservation

namespace SqlPreview

def Role.opening? : Role → Option Block.Kind
  | opens head => some head.kind
  | closes _ => none

def Role.closing? : Role → Option Block.Kind
  | opens _ => none
  | closes kind => some kind

theorem Role.opening?_of_closing? {role : Role} {kind : Block.Kind} (h : role.closing? = some kind) :
    role.opening? = none := by
  cases role with
  | opens head => simp [closing?] at h
  | closes kind => rfl

namespace Token

-- Two pairs without a common tag: one ends before the other begins, or lies inside it.
def Apart (pair other : Token × Token) : Prop :=
  pair.2.offset < other.1.offset ∨ other.2.offset < pair.1.offset ∨
    pair.1.offset < other.1.offset ∧ other.2.offset < pair.2.offset ∨
    other.1.offset < pair.1.offset ∧ pair.2.offset < other.2.offset

-- The pair begins with the tag, or has it strictly inside.
def Covers (pair : Token × Token) (token : Token) : Prop :=
  pair.1 = token ∨ pair.1.offset < token.offset ∧ token.offset < pair.2.offset

-- The block of the tag, or a block around the tag, is closed before `limit`.
def UsedUp (pairs : List (Token × Token)) (token : Token) (limit : Nat) : Prop :=
  ∃ pair ∈ pairs, pair.2.offset < limit ∧ Covers pair token

theorem Apart.symm {pair other : Token × Token} (h : Apart pair other) : Apart other pair := by
  unfold Apart at h ⊢
  omega

-- A pair that ends later uses nothing up before.
theorem usedUp_cons {pair : Token × Token} {pairs : List (Token × Token)} {token : Token}
    {limit : Nat} (h : limit ≤ pair.2.offset) :
    UsedUp (pair :: pairs) token limit ↔ UsedUp pairs token limit := by
  simp only [UsedUp, List.exists_mem_cons_iff, Nat.not_lt_of_le h, false_and, false_or]

theorem usedUp_perm {pairs pairs' : List (Token × Token)} {token : Token} {limit : Nat}
    (h : pairs.Perm pairs') : UsedUp pairs token limit ↔ UsedUp pairs' token limit := by
  simp only [UsedUp, h.mem_iff]

theorem UsedUp.mono {pairs pairs' : List (Token × Token)} {token : Token} {limit : Nat}
    (h : UsedUp pairs token limit) (hsub : pairs ⊆ pairs') : UsedUp pairs' token limit := by
  obtain ⟨pair, hp, hlt, hcovers⟩ := h
  exact ⟨pair, hsub hp, hlt, hcovers⟩

-- Of the tags of a kind, none before `limit` is open there.
def NoneOpen (pairs : List (Token × Token)) (seen : List Token) (kind : Block.Kind) (limit : Nat) :
    Prop :=
  ∀ token ∈ seen, token.tag.role.opening? = some kind → token.offset < limit →
    UsedUp pairs token limit

-- Neither a later tag nor a block that is closed later opens or closes anything before `limit`.
theorem noneOpen_append {pairs pairs' : List (Token × Token)} {seen : List Token} {next : Token}
    {kind : Block.Kind} {limit : Nat} (hnext : limit ≤ next.offset)
    (hpairs : ∀ token, UsedUp pairs' token limit ↔ UsedUp pairs token limit) :
    NoneOpen pairs' (seen ++ [next]) kind limit ↔ NoneOpen pairs seen kind limit := by
  have hlast : next.tag.role.opening? = some kind → next.offset < limit →
      UsedUp pairs next limit := fun _ hlt => absurd hlt (Nat.not_lt_of_le hnext)
  simp only [NoneOpen, hpairs, List.forall_mem_append, List.forall_mem_singleton]
  exact and_iff_left hlast

-- The tags in `seen` and the pairs among them, while those in `stack` wait for their closing tag.
structure Matched (stack seen : List Token) (pairs : List (Token × Token)) : Prop where
  ordered : seen.Pairwise fun one other => one.offset < other.offset
  seen_pair : ∀ pair ∈ pairs, pair.1 ∈ seen ∧ pair.2 ∈ seen
  seen_stack : ∀ token ∈ stack, token ∈ seen
  stack_order : stack.Pairwise fun inner outer => outer.offset < inner.offset
  waiting : ∀ token ∈ seen, token.tag.role.opening?.isSome →
    (token ∈ stack ↔ ∀ pair ∈ pairs, ¬Covers pair token)
  joined : ∀ pair ∈ pairs, pair.1.offset < pair.2.offset ∧
    ∃ kind, pair.1.tag.role.opening? = some kind ∧ pair.2.tag.role.closing? = some kind
  apart : pairs.Pairwise Apart
  nearest : ∀ pair ∈ pairs, ∀ token ∈ seen,
    token.tag.role.opening? = pair.1.tag.role.opening? → pair.1.offset < token.offset →
      token.offset < pair.2.offset → UsedUp pairs token pair.2.offset

namespace Matched

variable {stack seen : List Token} {pairs : List (Token × Token)}

theorem eq_of_offset_eq (h : Matched stack seen pairs) {one other : Token} (ho : one ∈ seen)
    (ho' : other ∈ seen) (heq : one.offset = other.offset) : one = other :=
  List.inj_on_of_nodup_map (nodup_map_offset h.ordered) ho ho' heq

-- The pairs may be listed in any order.
theorem perm (h : Matched stack seen pairs) {pairs' : List (Token × Token)}
    (hp : pairs'.Perm pairs) : Matched stack seen pairs' := by
  refine ⟨h.ordered, ?_, h.seen_stack, h.stack_order, ?_, ?_, ?_, ?_⟩
  · intro pair hm
    exact h.seen_pair pair (hp.mem_iff.mp hm)
  · intro token ht hopening
    rw [h.waiting token ht hopening]
    simp only [hp.mem_iff]
  · intro pair hm
    exact h.joined pair (hp.mem_iff.mp hm)
  · exact (hp.pairwise_iff Apart.symm).mpr h.apart
  · intro pair hm token ht hkind hlt hlt'
    exact (h.nearest pair (hp.mem_iff.mp hm) token ht hkind hlt hlt').mono hp.symm.subset

section Next

variable {next : Token} (hnext : ∀ token ∈ seen, token.offset < next.offset)
include hnext

-- A tag behind all pairs does not lie inside of one.
theorem nearest_append (h : Matched stack seen pairs) :
    ∀ pair ∈ pairs, ∀ token ∈ seen ++ [next],
      token.tag.role.opening? = pair.1.tag.role.opening? → pair.1.offset < token.offset →
        token.offset < pair.2.offset → UsedUp pairs token pair.2.offset := by
  intro pair hp token ht hkind hlt hlt'
  rcases List.mem_append.mp ht with ht | ht
  · exact h.nearest pair hp token ht hkind hlt hlt'
  · have hend := hnext _ (h.seen_pair pair hp).2
    rw [List.mem_singleton.mp ht] at hlt'
    omega

-- An opening tag waits on top of the stack.
theorem opens (h : Matched stack seen pairs) :
    Matched (next :: stack) (seen ++ [next]) pairs := by
  have hseen : seen ⊆ seen ++ [next] := List.subset_append_left _ _
  refine ⟨Token.pairwise_append_singleton h.ordered hnext, ?_, ?_, ?_, ?_, h.joined, h.apart, h.nearest_append hnext⟩
  · intro pair hp
    exact ⟨hseen (h.seen_pair pair hp).1, hseen (h.seen_pair pair hp).2⟩
  · refine List.forall_mem_cons.mpr ⟨by simp, fun token ht => hseen (h.seen_stack token ht)⟩
  · exact List.pairwise_cons.mpr ⟨fun token ht => hnext token (h.seen_stack token ht), h.stack_order⟩
  · intro token ht hopening
    rcases List.mem_append.mp ht with ht | ht
    · have hne : token ≠ next := fun heq => Nat.ne_of_lt (hnext token ht) (congrArg offset heq)
      rw [List.mem_cons, or_iff_right hne]
      exact h.waiting token ht hopening
    · rw [List.mem_singleton.mp ht]
      refine iff_of_true List.mem_cons_self fun pair hp hcovers => ?_
      have hstart := hnext _ (h.seen_pair pair hp).1
      have hend := hnext _ (h.seen_pair pair hp).2
      rcases hcovers with heq | ⟨-, hlt⟩
      · rw [heq] at hstart
        omega
      · omega

-- A closing tag that closes nothing changes nothing.
theorem refuses (h : Matched stack seen pairs) (hrole : next.tag.role.opening? = none) :
    Matched stack (seen ++ [next]) pairs := by
  have hseen : seen ⊆ seen ++ [next] := List.subset_append_left _ _
  refine ⟨Token.pairwise_append_singleton h.ordered hnext, ?_, ?_, h.stack_order, ?_, h.joined, h.apart,
    h.nearest_append hnext⟩
  · intro pair hp
    exact ⟨hseen (h.seen_pair pair hp).1, hseen (h.seen_pair pair hp).2⟩
  · intro token ht
    exact hseen (h.seen_stack token ht)
  · intro token ht hopening
    rcases List.mem_append.mp ht with ht | ht
    · exact h.waiting token ht hopening
    · rw [List.mem_singleton.mp ht, hrole] at hopening
      cases hopening

end Next

section Closes

variable {inner outer : List Token} {opened closing : Token} {kind : Block.Kind}

-- A tag on the stack has not been covered by a pair.
theorem not_covers (h : Matched stack seen pairs) {token : Token} (ht : token ∈ stack)
    (hopening : token.tag.role.opening? = some kind) : ∀ pair ∈ pairs, ¬Covers pair token :=
  (h.waiting token (h.seen_stack token ht) (by simp [hopening])).mp ht

-- An opening tag that is not on the stack has been covered by a pair.
theorem usedUp_of_not_mem (h : Matched stack seen pairs) {limit : Nat}
    (hlt : ∀ token ∈ seen, token.offset < limit) {token : Token} (ht : token ∈ seen)
    (hopening : token.tag.role.opening? = some kind) (hout : token ∉ stack) :
    UsedUp pairs token limit := by
  rw [h.waiting token ht (by simp [hopening])] at hout
  push Not at hout
  obtain ⟨pair, hp, hcovers⟩ := hout
  exact ⟨pair, hp, hlt _ (h.seen_pair pair hp).2, hcovers⟩

-- No tag of a kind is open exactly if none of the kind is on the stack.
theorem noneOpen_iff (h : Matched stack seen pairs) {limit : Nat}
    (hlt : ∀ token ∈ seen, token.offset < limit) :
    NoneOpen pairs seen kind limit ↔ ∀ token ∈ stack, token.tag.role.opening? ≠ some kind := by
  constructor
  · intro hnone token ht hopening
    have hseen := h.seen_stack token ht
    obtain ⟨pair, hp, -, hcovers⟩ := hnone token hseen hopening (hlt token hseen)
    exact h.not_covers ht hopening pair hp hcovers
  · intro hstack token ht hopening _
    exact h.usedUp_of_not_mem hlt ht hopening fun hm => hstack token hm hopening

-- A pair that ends before the closing tag has no tag in common with the new block, and does not
-- reach into it from before.
theorem apart_closes (h : Matched stack seen pairs)
    (hnext : ∀ token ∈ seen, token.offset < closing.offset)
    (hm : opened ∈ stack) (hopened : opened.tag.role.opening? = some kind) :
    ∀ pair ∈ pairs, Apart (opened, closing) pair := by
  intro pair hp
  obtain ⟨hopen, hclose⟩ := h.seen_pair pair hp
  obtain ⟨-, kind', -, hrole⟩ := h.joined pair hp
  have hseen := h.seen_stack opened hm
  have hcovers := h.not_covers hm hopened pair hp
  have hstart : pair.1.offset ≠ opened.offset := fun heq =>
    hcovers (.inl (h.eq_of_offset_eq hopen hseen heq))
  have hend : pair.2.offset ≠ opened.offset := by
    intro heq
    rw [h.eq_of_offset_eq hclose hseen heq] at hrole
    rw [Role.opening?_of_closing? hrole] at hopened
    cases hopened
  have hinside : ¬(pair.1.offset < opened.offset ∧ opened.offset < pair.2.offset) := fun hlt =>
    hcovers (.inr hlt)
  have hlt := hnext pair.2 hclose
  simp only [Apart]
  omega

-- The new block begins with its opening tag and has the tags above that one inside, but none below it.
theorem covers_iff (h : Matched (inner ++ opened :: outer) seen pairs)
    (hnext : ∀ token ∈ seen, token.offset < closing.offset) {token : Token}
    (ht : token ∈ inner ++ opened :: outer) : Covers (opened, closing) token ↔ token ∉ outer := by
  obtain ⟨-, hbelow, habove⟩ := List.pairwise_append.mp h.stack_order
  have hunder := (List.pairwise_cons.mp hbelow).1
  have hlt := hnext token (h.seen_stack token ht)
  constructor
  · rintro (heq | ⟨hlt', -⟩) hout
    · exact Nat.ne_of_lt (hunder token hout) (congrArg offset heq.symm)
    · exact Nat.lt_asymm (hunder token hout) hlt'
  · intro hout
    rcases List.mem_append.mp ht with hin | hin
    · exact .inr ⟨habove token hin opened List.mem_cons_self, hlt⟩
    · exact .inl ((List.mem_cons.mp hin).resolve_right hout).symm

-- What stays on the stack is what neither an old pair nor the new one covers.
theorem waiting_closes (h : Matched (inner ++ opened :: outer) seen pairs)
    (hnext : ∀ token ∈ seen, token.offset < closing.offset) :
    ∀ token ∈ seen, token.tag.role.opening?.isSome →
      (token ∈ outer ↔ ∀ pair ∈ (opened, closing) :: pairs, ¬Covers pair token) := by
  intro token ht hopening
  rw [List.forall_mem_cons, ← h.waiting token ht hopening]
  constructor
  · intro hout
    have hm : token ∈ inner ++ opened :: outer := by simp [hout]
    exact ⟨fun hcovers => (h.covers_iff hnext hm).mp hcovers hout, hm⟩
  · rintro ⟨hcovers, hm⟩
    exact Classical.byContradiction fun hout => hcovers ((h.covers_iff hnext hm).mpr hout)

-- The tags of the kind behind the opening tag are not on the stack, so they have been used up.
theorem nearest_closes (h : Matched (inner ++ opened :: outer) seen pairs)
    (hnext : ∀ token ∈ seen, token.offset < closing.offset)
    (hinner : ∀ token ∈ inner, token.tag.role.opening? ≠ some kind) {token : Token}
    (ht : token ∈ seen) (hkind : token.tag.role.opening? = some kind)
    (hlt : opened.offset < token.offset) : UsedUp pairs token closing.offset := by
  have hbelow := (List.pairwise_append.mp h.stack_order).2.1
  apply h.usedUp_of_not_mem hnext ht hkind
  intro hm
  rcases List.mem_append.mp hm with hin | hin
  · exact hinner token hin hkind
  · rcases List.mem_cons.mp hin with rfl | hout
    · exact Nat.lt_irrefl _ hlt
    · exact Nat.lt_asymm hlt ((List.pairwise_cons.mp hbelow).1 token hout)

-- A closing tag is joined with the nearest tag of its kind on the stack, and the tags above that one
-- are covered by the new pair.
theorem closes (h : Matched (inner ++ opened :: outer) seen pairs)
    (hnext : ∀ token ∈ seen, token.offset < closing.offset)
    (hopened : opened.tag.role.opening? = some kind) (hclosing : closing.tag.role.closing? = some kind)
    (hinner : ∀ token ∈ inner, token.tag.role.opening? ≠ some kind) :
    Matched outer (seen ++ [closing]) ((opened, closing) :: pairs) := by
  have hm : opened ∈ inner ++ opened :: outer := by simp
  have hseen := h.seen_stack opened hm
  have hlater : seen ⊆ seen ++ [closing] := List.subset_append_left _ _
  have hsub : pairs ⊆ (opened, closing) :: pairs := List.subset_cons_self _ _
  have hrest := (List.pairwise_cons.mp (List.pairwise_append.mp h.stack_order).2.1).2
  refine ⟨Token.pairwise_append_singleton h.ordered hnext, ?_, ?_, hrest, ?_, ?_, ?_, ?_⟩
  · refine List.forall_mem_cons.mpr ⟨⟨hlater hseen, by simp⟩, fun pair hp => ?_⟩
    exact ⟨hlater (h.seen_pair pair hp).1, hlater (h.seen_pair pair hp).2⟩
  · intro token ht
    exact hlater (h.seen_stack token (by simp [ht]))
  · refine List.forall_mem_append.mpr ⟨h.waiting_closes hnext, ?_⟩
    rw [List.forall_mem_singleton, Role.opening?_of_closing? hclosing]
    exact fun hfalse => nomatch hfalse
  · exact List.forall_mem_cons.mpr ⟨⟨hnext opened hseen, kind, hopened, hclosing⟩, h.joined⟩
  · exact List.pairwise_cons.mpr ⟨h.apart_closes hnext hm hopened, h.apart⟩
  · refine List.forall_mem_cons.mpr ⟨fun token ht hkind hlt hlt' => ?_,
      fun pair hp token ht hkind hlt hlt' =>
        (h.nearest_append hnext pair hp token ht hkind hlt hlt').mono hsub⟩
    have ht' : token ∈ seen := by
      refine (List.mem_append.mp ht).resolve_right fun hlast => ?_
      rw [List.mem_singleton.mp hlast] at hlt'
      exact Nat.lt_irrefl _ hlt'
    exact (h.nearest_closes hnext hinner ht' (hkind.trans hopened) hlt).mono hsub

end Closes

end Matched

end Token

namespace Progress

-- A closing tag that has been read is reported exactly if no tag of its kind was open there, and if it
-- is reported, then it stands in the text.
def Answered (seen : List Token) (progress : Progress) (closing : Token) : Prop :=
  ∀ kind, closing.tag.role = .closes kind →
    (closing.unpaired ∈ progress.issues ↔
      Token.NoneOpen progress.pairs seen kind closing.offset) ∧
    (closing.unpaired ∈ progress.issues →
      Node.Shows progress.places closing.offset closing.tag.text)

-- The blocks that have been closed are those of the nearest tags, and every closing tag is answered.
structure Matches (seen : List Token) (progress : Progress) : Prop where
  matched : Token.Matched (progress.blocks.map OpenBlock.token) seen progress.pairs
  answered : ∀ closing ∈ seen, Answered seen progress closing

theorem matches_start : Matches [] start := by
  refine ⟨⟨List.Pairwise.nil, ?_, ?_, List.Pairwise.nil, ?_, ?_, List.Pairwise.nil, ?_⟩, ?_⟩ <;>
    simp [start, pairs, places, OpenBlock.places, Node.placedAll]

theorem unpaired_of_closes {closing : Token} {kind : Block.Kind}
    (h : closing.tag.role = .closes kind) :
    closing.unpaired = ⟨.unopened, closing.tag.text, closing.offset⟩ := by
  simp only [Token.unpaired, h]

-- Going on from a place reports no closing tag before it, closes no block before it, and keeps all
-- texts.
structure Later (place : Nat) (progress next : Progress) : Prop where
  issues : ∀ issue, issue.kind = .unopened → issue.offset < place →
    (issue ∈ next.issues ↔ issue ∈ progress.issues)
  used : ∀ token limit, limit ≤ place →
    (Token.UsedUp next.pairs token limit ↔ Token.UsedUp progress.pairs token limit)
  keeps : Node.Keeps progress.places next.places

-- The answer to a closing tag stands when the reading goes on.
theorem Answered.later {seen : List Token} {progress next : Progress} {closing token : Token}
    (h : Answered seen progress closing) (hlater : Later token.offset progress next)
    (hlt : closing.offset < token.offset) (ht : closing.tag.text ≠ []) :
    Answered (seen ++ [token]) next closing := by
  intro kind hrole
  obtain ⟨hrefused, hkept⟩ := h kind hrole
  have hissue : closing.unpaired ∈ next.issues ↔ closing.unpaired ∈ progress.issues := by
    apply hlater.issues _ _ (by rwa [Token.unpaired_offset])
    rw [unpaired_of_closes hrole]
  have hused := fun other => hlater.used other closing.offset (Nat.le_of_lt hlt)
  rw [hissue, hrefused, Token.noneOpen_append (Nat.le_of_lt hlt) hused]
  refine ⟨Iff.rfl, fun hnone => ?_⟩
  exact hlater.keeps _ _ ht (hkept (hrefused.mpr hnone))

theorem answered_of_opens {seen : List Token} {progress : Progress} {token : Token}
    {head : Block.Head} (h : token.tag.role = .opens head) : Answered seen progress token := by
  intro kind hrole
  rw [h] at hrole
  cases hrole

-- Blocks that are given up are not reported as closing tags.
theorem mem_unclosed_append {blocks : List OpenBlock} {issues : List Issue} {issue : Issue}
    (h : issue.kind = .unopened) :
    issue ∈ (blocks.map OpenBlock.unclosed).reverse ++ issues ↔ issue ∈ issues := by
  have hnot : issue ∉ (blocks.map OpenBlock.unclosed).reverse := by
    intro hm
    obtain ⟨block, -, rfl⟩ := List.mem_map.mp (List.mem_reverse.mp hm)
    cases h
  rw [List.mem_append, or_iff_right hnot]

theorem mem_headIssue_append {head : Block.Head} {tag : Text} {offset : Nat} {issues : List Issue}
    {issue : Issue} (h : issue.kind = .unopened) :
    issue ∈ headIssue head tag offset ++ issues ↔ issue ∈ issues := by
  have hnot : issue ∉ headIssue head tag offset := by
    intro hm
    rw [headIssue_eq] at hm
    split at hm
    · rw [List.mem_singleton.mp hm] at h
      cases h
    · cases hm
  rw [List.mem_append, or_iff_right hnot]

theorem pairs_step_opens (progress : Progress) (tag : Text) (head : Block.Head) :
    (progress.step (.tag ⟨tag, .opens head⟩)).pairs = progress.pairs := by
  rw [pairs, places_step_opens, pairs]

theorem later_step_opens (progress : Progress) (tag : Text) (head : Block.Head) :
    Later progress.offset progress (progress.step (.tag ⟨tag, .opens head⟩)) := by
  refine ⟨fun issue hk _ => mem_headIssue_append hk, fun token limit _ => ?_, ?_⟩
  · rw [pairs_step_opens]
  · rw [places_step_opens]
    exact (Node.Grown.refl _).keeps

theorem later_step_closes {progress : Progress} (h : progress.Placed) {tag : Text} (ht : tag ≠ [])
    (kind : Block.Kind) :
    Later progress.offset progress (progress.step (.tag ⟨tag, .closes kind⟩)) := by
  rcases step_closes h ht kind with
    ⟨inner, block, outer, -, -, -, -, hissues, hpairs, hkeeps⟩ | ⟨-, -, hissues, hpairs, hkeeps, -⟩
  · refine ⟨fun issue hk _ => ?_, fun token limit hle => ?_, hkeeps⟩
    · rw [hissues, mem_unclosed_append hk]
    · rw [Token.usedUp_perm hpairs]
      exact Token.usedUp_cons hle
  · refine ⟨fun issue _ hlt => ?_, fun token limit _ => by rw [hpairs], hkeeps⟩
    have hne : issue ≠ ⟨.unopened, tag, progress.offset⟩ := by
      rintro rfl
      exact Nat.lt_irrefl _ hlt
    rw [hissues, List.mem_cons, or_iff_right hne]

section Step

variable {seen lost : List Token} {progress : Progress}

theorem Matches.step_text (h : Matches seen progress) (ht : ∀ token ∈ seen, token.tag.text ≠ [])
    (t : Text) : Matches seen (progress.step (.text t)) := by
  have hgrown := grown_places_step_text progress t
  have hpairs : (progress.step (.text t)).pairs = progress.pairs := hgrown.pairs
  refine ⟨?_, fun closing hc kind hrole => ?_⟩
  · rw [hpairs]
    exact h.matched
  · obtain ⟨hrefused, hkept⟩ := h.answered closing hc kind hrole
    rw [hpairs]
    exact ⟨hrefused, fun hi => hgrown.keeps _ _ (ht closing hc) (hkept hi)⟩

theorem Matches.step_opens (h : Matches seen progress) (ha : Accounts seen lost progress)
    (ht : ∀ token ∈ seen, token.tag.text ≠ []) (tag : Text) (head : Block.Head) :
    Matches (seen ++ [⟨progress.offset, tag, .opens head⟩])
      (progress.step (.tag ⟨tag, .opens head⟩)) := by
  refine ⟨?_, List.forall_mem_append.mpr ⟨fun closing hc => ?_, ?_⟩⟩
  · rw [pairs_step_opens]
    exact h.matched.opens ha.seen_lt
  · exact (h.answered closing hc).later (later_step_opens progress tag head)
      (ha.seen_lt closing hc) (ht closing hc)
  · exact List.forall_mem_singleton.mpr (answered_of_opens rfl)

theorem Matches.matched_step_closes (h : Matches seen progress) (ha : Accounts seen lost progress)
    {tag : Text} (htag : tag ≠ []) (kind : Block.Kind) :
    let next := progress.step (.tag ⟨tag, .closes kind⟩)
    Token.Matched (next.blocks.map OpenBlock.token) (seen ++ [⟨progress.offset, tag, .closes kind⟩])
      next.pairs := by
  intro next
  have hmatched := h.matched
  rcases Progress.step_closes ha.placed htag kind with
    ⟨inner, block, outer, hblocks, hkind, hinner, hnext, -, hpairs, -⟩ | ⟨-, hnext, -, hpairs, -⟩
  · rw [hblocks, List.map_append, List.map_cons] at hmatched
    rw [hnext]
    have hopened : block.token.tag.role.opening? = some kind := congrArg some hkind
    refine (hmatched.closes ha.seen_lt hopened rfl ?_).perm hpairs
    intro token hm hopening
    obtain ⟨other, ho, rfl⟩ := List.mem_map.mp hm
    exact hinner other ho (Option.some.inj hopening)
  · rw [hnext, hpairs]
    exact hmatched.refuses ha.seen_lt rfl

-- A closing tag is answered when it is read.
theorem Matches.answered_step_closes (h : Matches seen progress) (ha : Accounts seen lost progress)
    {tag : Text} (htag : tag ≠ []) (kind : Block.Kind) :
    let closing : Token := ⟨progress.offset, tag, .closes kind⟩
    Answered (seen ++ [closing]) (progress.step (.tag ⟨tag, .closes kind⟩)) closing := by
  rintro closing kind' ⟨⟩
  have hused := fun token =>
    (later_step_closes ha.placed htag kind).used token progress.offset (Nat.le_refl _)
  have hopen : Token.NoneOpen (progress.step (.tag ⟨tag, .closes kind⟩)).pairs (seen ++ [closing])
      kind progress.offset ↔ ∀ block ∈ progress.blocks, block.head.kind ≠ kind := by
    rw [Token.noneOpen_append (Nat.le_refl _) hused, h.matched.noneOpen_iff ha.seen_lt]
    simp [OpenBlock.token, Role.opening?]
  rw [hopen]
  rcases Progress.step_closes ha.placed htag kind with
    ⟨inner, block, outer, hblocks, hkind, -, -, hissues, -, -⟩ | ⟨hnone, -, hissues, -, -, hshows⟩
  · have hunreported : closing.unpaired ∉ (progress.step (.tag ⟨tag, .closes kind⟩)).issues := by
      rw [hissues, mem_unclosed_append rfl]
      exact fun hi => Nat.lt_irrefl _ (ha.issue_lt hi)
    refine ⟨iff_of_false hunreported fun hnone => ?_, fun hi => absurd hi hunreported⟩
    exact hnone block (by simp [hblocks]) hkind
  · have hreported : closing.unpaired ∈ (progress.step (.tag ⟨tag, .closes kind⟩)).issues := by
      rw [hissues]
      exact List.mem_cons_self
    exact ⟨iff_of_true hreported hnone, fun _ => hshows⟩

theorem Matches.step_closes (h : Matches seen progress) (ha : Accounts seen lost progress)
    (ht : ∀ token ∈ seen, token.tag.text ≠ []) {tag : Text} (htag : tag ≠ []) (kind : Block.Kind) :
    Matches (seen ++ [⟨progress.offset, tag, .closes kind⟩])
      (progress.step (.tag ⟨tag, .closes kind⟩)) := by
  refine ⟨h.matched_step_closes ha htag kind,
    List.forall_mem_append.mpr ⟨fun closing hc => ?_, ?_⟩⟩
  · exact (h.answered closing hc).later (later_step_closes ha.placed htag kind)
      (ha.seen_lt closing hc) (ht closing hc)
  · exact List.forall_mem_singleton.mpr (h.answered_step_closes ha htag kind)

theorem Matches.step (h : Matches seen progress) (ha : Accounts seen lost progress)
    (ht : ∀ token ∈ seen, token.tag.text ≠ []) {chunk : Chunk}
    (hc : ∀ tag, chunk = .tag tag → tag.text ≠ []) :
    Matches (seen ++ Token.ofChunks progress.offset [chunk]) (progress.step chunk) := by
  match chunk with
  | .text t =>
    rw [Token.ofChunks, Token.ofChunks, List.append_nil]
    exact h.step_text ht t
  | .tag ⟨tag, .opens head⟩ => exact h.step_opens ha ht tag head
  | .tag ⟨tag, .closes kind⟩ => exact h.step_closes ha ht (hc _ rfl) kind

theorem Matches.foldl_step {chunks : List Chunk} (h : Matches seen progress)
    (ha : Accounts seen lost progress) (ht : ∀ token ∈ seen, token.tag.text ≠ [])
    (hc : ∀ tag, .tag tag ∈ chunks → tag.text ≠ []) :
    Matches (seen ++ Token.ofChunks progress.offset chunks)
      (chunks.foldl Progress.step progress) := by
  induction chunks generalizing seen lost progress with
  | nil => simpa [Token.ofChunks] using h
  | cons chunk chunks ih =>
    have hfirst : ∀ tag, chunk = .tag tag → tag.text ≠ [] := fun tag heq =>
      hc tag (heq ▸ List.mem_cons_self)
    obtain ⟨lost', hstep⟩ := ha.step hfirst
    rw [Token.ofChunks_cons, ← offset_step, ← List.append_assoc]
    refine ih (h.step ha ht hfirst) hstep ?_ fun tag hm => hc tag (List.mem_cons_of_mem _ hm)
    refine List.forall_mem_append.mpr ⟨ht, fun token hm => ?_⟩
    cases chunk with
    | text t => cases hm
    | tag tag =>
      rw [List.mem_singleton.mp hm]
      exact hfirst tag rfl

end Step

theorem mem_issues_finish {progress : Progress} {issue : Issue} (h : issue.kind = .unopened) :
    issue ∈ progress.finish.2 ↔ issue ∈ progress.issues := by
  have hperm : progress.finish.2.Perm
      (giveUpAll progress.blocks progress.nodes progress.issues).2 :=
    (List.mergeSort_perm _ _).trans (List.reverse_perm _)
  rw [hperm.mem_iff, giveUpAll_snd, mem_unclosed_append h]

end Progress

namespace Template

theorem exists_matches (source : Text) :
    ∃ progress, Progress.Matches (tokens source) progress ∧
      (parse source).nodes = progress.finish.1 ∧ (parse source).issues = progress.finish.2 := by
  have hnone : ∀ token ∈ ([] : List Token), token.tag.text ≠ [] := by simp
  refine ⟨(chunks source).foldl Progress.step .start, ?_, rfl, rfl⟩
  exact Progress.matches_start.foldl_step Progress.accounts_start hnone fun _ =>
    text_ne_nil_of_mem_chunks

-- No tag belongs to two blocks.
theorem nodup_ofPairs (source : Text) : (Token.ofPairs (Node.pairs (parse source).nodes)).Nodup := by
  obtain ⟨lost, issues, hshared, -, -⟩ := exists_recorded source
  have hall : (tokens source).Nodup := (Token.nodup_map_offset (pairwise_tokens source)).of_map _
  exact (hshared.nodup_iff.mp hall).of_append_left

-- A closing tag that is not reported is the closing tag of a block.
theorem exists_pair_of_not_reported {source : Text} {closing : Token} {kind : Block.Kind}
    (hc : closing ∈ tokens source) (hrole : closing.tag.role = .closes kind)
    (h : closing.unpaired ∉ (parse source).issues) :
    ∃ pair ∈ Node.pairs (parse source).nodes, pair.2 = closing := by
  obtain ⟨lost, issues, hshared, hrecorded, hissues⟩ := exists_recorded source
  have hperm : (parse source).issues.Perm issues :=
    hissues ▸ (List.mergeSort_perm _ _).trans (List.reverse_perm issues)
  have hlost : closing ∉ lost := by
    intro hm
    have hreported : closing.unpaired ∈ issues.filter fun issue => issue.kind.isUnpaired :=
      hrecorded.unpaired ▸ List.mem_map_of_mem hm
    exact h (hperm.mem_iff.mpr (List.mem_of_mem_filter hreported))
  have hpaired := (List.mem_append.mp (hshared.mem_iff.mp hc)).resolve_right hlost
  obtain ⟨pair, hp, hmem⟩ := List.mem_flatMap.mp hpaired
  obtain ⟨place, -, hpair⟩ := List.mem_filterMap.mp hp
  obtain ⟨head, hopens⟩ := Node.opens_of_pair? hpair
  rcases List.mem_pair.mp hmem with rfl | rfl
  · rw [hopens] at hrole
    cases hrole
  · exact ⟨pair, hp, rfl⟩

-- Every block joins two tags of its kind, and no two blocks cross. The opening tags of its kind
-- inside a block have been used up before it ends. A closing tag is reported, and stays text, exactly
-- if all opening tags of its kind before it have been used up.
theorem pairs_matched (source : Text) :
    let template := parse source
    let pairs := Node.pairs template.nodes
    (∀ pair ∈ pairs, pair.1 ∈ tokens source ∧ pair.2 ∈ tokens source ∧
        pair.1.offset < pair.2.offset ∧ ∃ kind, pair.1.tag.role.opening? = some kind ∧
          pair.2.tag.role.closing? = some kind) ∧
      (Token.ofPairs pairs).Nodup ∧ pairs.Pairwise Token.Apart ∧
      (∀ pair ∈ pairs, ∀ token ∈ tokens source,
        token.tag.role.opening? = pair.1.tag.role.opening? → pair.1.offset < token.offset →
          token.offset < pair.2.offset → Token.UsedUp pairs token pair.2.offset) ∧
      ∀ closing ∈ tokens source, ∀ kind, closing.tag.role = .closes kind →
        (closing.unpaired ∈ template.issues ↔
            Token.NoneOpen pairs (tokens source) kind closing.offset) ∧
          (Node.Shows (Node.placedAll 0 template.nodes) closing.offset closing.tag.text ↔
            Token.NoneOpen pairs (tokens source) kind closing.offset) := by
  intro template pairs
  obtain ⟨progress, ⟨hmatched, hanswered⟩, hnodes, hissues⟩ := exists_matches source
  have hgrown : Node.Grown progress.places (Node.placedAll 0 template.nodes) := by
    rw [hnodes]
    exact progress.grown_places_finish
  have hpairs : pairs = progress.pairs := hgrown.pairs
  rw [← hpairs] at hmatched
  refine ⟨?_, nodup_ofPairs source, hmatched.apart, hmatched.nearest, ?_⟩
  · intro pair hp
    obtain ⟨hopen, hclose⟩ := hmatched.seen_pair pair hp
    exact ⟨hopen, hclose, hmatched.joined pair hp⟩
  · intro closing hc kind hrole
    have ht := text_ne_nil_of_mem_tokens hc
    obtain ⟨hrefused, hkept⟩ := hanswered closing hc kind hrole
    have hreported : closing.unpaired ∈ template.issues ↔ closing.unpaired ∈ progress.issues := by
      rw [hissues]
      apply Progress.mem_issues_finish
      rw [Progress.unpaired_of_closes hrole]
    rw [hpairs, ← hrefused, hreported]
    refine ⟨Iff.rfl, fun hshows => ?_, fun hi => hgrown.keeps _ _ ht (hkept hi)⟩
    rw [← hreported]
    by_contra hnot
    obtain ⟨pair, hp, rfl⟩ := exists_pair_of_not_reported hc hrole hnot
    exact Node.not_shows_closing hp ht hshows

end Template

end SqlPreview
