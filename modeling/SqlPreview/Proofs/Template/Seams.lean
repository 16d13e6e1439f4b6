import SqlPreview.Proofs.Parameter.Shield
import SqlPreview.Proofs.Template.Characters
import SqlPreview.Proofs.Text.Cut

namespace SqlPreview

open Text (isCut CutClosed)

namespace Placeholder

variable {allowed : Placeholder → Prop}

theorem sparesPlaceholders_isCut : SparesPlaceholders isCut := by
  intro p hp c hc
  have hcomma : c ≠ ',' := by
    rintro rfl
    simp only [toText, List.mem_cons, List.mem_append, List.not_mem_nil, or_false] at hc
    rcases hc with (h | h | h) | h
    · cases hform : p.form <;> simp [hform, Form.sigil] at h
    · cases h
    · exact absurd (Name.isNameChar_of_mem hp h) (by decide)
    · cases h
  simp [isCut, isBlank_of_mem_toText hp hc, hcomma]

theorem cutClosed_settled : CutClosed (Settled isCut allowed) :=
  ⟨fun h hs => h.suffix hs, fun h ht => h.of_append sparesPlaceholders_isCut ht⟩

theorem cutClosed_followed : CutClosed (Followed isCut) := by
  refine ⟨fun h hs => h.suffix hs, ?_⟩
  intro s t h ht c behind hs hc
  obtain ⟨before, rfl⟩ := hs
  obtain ⟨d, hd, hkeep⟩ := h c (behind ++ t) ⟨before, by simp⟩ hc
  cases behind with
  | nil => simp [ht d hd] at hkeep
  | cons e behind => exact ⟨d, hd, hkeep⟩

theorem settled_intercalate {separator : Text} {texts : List Text}
    (hs : Settled isCut allowed separator) (ht : ∀ t ∈ texts, Settled isCut allowed t) :
    Settled isCut allowed (separator.intercalate texts) := by
  induction texts with
  | nil => exact settled_nil
  | cons t texts ih =>
    rw [List.forall_mem_cons] at ht
    cases texts with
    | nil => simpa using ht.1
    | cons next texts =>
      rw [List.intercalate_cons_cons]
      exact (ht.1.append hs).append (ih ht.2)

-- A quote behind a value keeps its last sigil from what follows.
theorem followed_append_quote {t : Text} (h : Followed isCut t) :
    Followed isCut (t ++ ['\x27']) := by
  induction t with
  | nil => decide
  | cons c t ih =>
    obtain ⟨hc, ht⟩ := Placeholder.atSigils_cons.mp h
    refine Placeholder.atSigils_cons.mpr ⟨fun hsigil => ?_, ih ht⟩
    cases t with
    | nil => exact ⟨'\x27', rfl, rfl⟩
    | cons d t => exact hc hsigil

theorem followed_quoted {t : Text} (h : Followed isCut t) :
    Followed isCut ('\x27' :: (t ++ ['\x27'])) :=
  Placeholder.atSigils_cons.mpr ⟨fun hc => absurd rfl hc, followed_append_quote h⟩

theorem followed_write {t : Text} (form : Form) (h : Followed isCut t) :
    Followed isCut (form.write t) := by
  cases form with
  | plain => exact h
  | quoted =>
    simp only [Form.write]
    split
    · exact h
    · exact followed_quoted h

variable {params : Params} {p : Placeholder}

theorem followed_fill (h : ∀ value, params.get? p.name = some value → Followed isCut value.toText) :
    Followed isCut (fill params p) := by
  have hnil : Followed isCut [] := fun c behind hs => by simp at hs
  rw [fill]
  split
  · next value hv =>
    split
    · exact hnil
    · exact followed_write p.form (h value hv)
  · exact hnil

theorem sealed_bind {item : Text} {element : Value} (he : Followed isCut element.toText)
    (h : ∀ value, params.get? p.name = some value → Followed isCut value.toText) :
    Sealed isCut (bind item element (some params) p) := by
  have hshield : isCut shieldChar = false := by decide
  unfold bind
  split
  · next heq => cases heq
  · next value _ hb _ =>
    exact sealed_shield hshield (followed_write p.form (cutClosed_bound? cutClosed_followed he hb))
  · next heq => cases heq
  · next heq =>
    cases heq
    exact sealed_shield hshield (followed_fill h)

end Placeholder

open Placeholder (Settled Sealed Followed)

section Clauses

variable {allowed : Placeholder → Prop}

theorem SetClause.settled_withComma {line : Text} (h : Settled isCut allowed line) :
    Settled isCut allowed (withComma line) := by
  rw [withComma]
  split
  · exact h
  · exact h.append (Placeholder.settled_of_no_sigil (by decide))

theorem SetClause.settled_withoutComma {line : Text} (h : Settled isCut allowed line) :
    Settled isCut allowed (withoutComma line) := by
  rw [withoutComma]
  split
  · next hlast =>
    obtain ⟨front, rfl⟩ := List.getLast?_eq_some_iff.mp hlast
    rw [List.dropLast_concat]
    refine Placeholder.cutClosed_settled.front h ?_
    rintro d ⟨⟩
    rfl
  · exact h

theorem SetClause.settled_punctuate {lines : List Text}
    (h : ∀ line ∈ lines, Settled isCut allowed line) :
    ∀ line ∈ punctuate lines, Settled isCut allowed line := by
  induction lines using punctuate.induct with
  | case1 => simp [punctuate]
  | case2 last =>
    rw [punctuate, List.forall_mem_singleton]
    exact settled_withoutComma (h last List.mem_cons_self)
  | case3 first next rest ih =>
    rw [List.forall_mem_cons] at h
    rw [punctuate, List.forall_mem_cons]
    exact ⟨settled_withComma h.1, ih h.2⟩

theorem SetClause.settled_ofBody {body : Text} (h : Settled isCut allowed body) :
    Settled isCut allowed (ofBody body) := by
  have hlines : ∀ line ∈ filledLines body, Settled isCut allowed line := by
    intro line hl
    obtain ⟨segment, hs, rfl⟩ := List.mem_map.mp (List.mem_filter.mp hl).1
    have hcut : CutClosed (Settled isCut allowed) := Placeholder.cutClosed_settled
    exact hcut.trim (hcut.of_splitOn rfl h hs)
  rw [ofBody]
  refine (Placeholder.settled_of_no_sigil (by decide)).append ?_
  exact Placeholder.settled_intercalate (Placeholder.settled_of_no_sigil (by decide))
    (settled_punctuate hlines)

theorem WhereClause.settled_ofBody {body : Text} (h : Settled isCut allowed body) :
    Settled isCut allowed (ofBody body) := by
  have hrest := (Placeholder.cutClosed_settled.trim h).suffix (withoutConnective_suffix _)
  simp only [ofBody]
  split
  · exact Placeholder.settled_nil
  · exact (Placeholder.settled_of_no_sigil (by decide)).append hrest

end Clauses

theorem Loop.settled_unroll {allowed allowed' : Placeholder → Prop} {header : Header}
    {item inner : Text} {elements : List Value} {params : Params}
    (ho : Settled isCut allowed header.opening) (hs : Settled isCut allowed header.separator)
    (hc : Settled isCut allowed header.closing) (hinner : Settled isCut allowed' inner)
    (helements : ∀ element ∈ elements, Followed isCut element.toText)
    (hvalues : ∀ p, allowed' p → ∀ value, params.get? p.name = some value →
      Followed isCut value.toText) :
    Settled isCut allowed (unroll header item inner elements (some params)) := by
  have hfragments : ∀ fragment ∈ fragments item inner elements (some params),
      Settled isCut allowed fragment := by
    intro fragment hf
    obtain ⟨element, he, rfl⟩ := List.mem_map.mp hf
    have hfollowed := cutClosed_boundForm Placeholder.cutClosed_followed (helements element he)
    have hsealed : Sealed isCut
        (Placeholder.bindElement item (boundForm element) (some params) inner) :=
      hinner.replace fun p hp =>
        Placeholder.sealed_bind hfollowed (hvalues p (hinner.allowed_of_mem_all hp))
    exact (Placeholder.cutClosed_settled.trim hsealed).mono fun _ hfalse => hfalse.elim
  exact (ho.append (Placeholder.settled_intercalate hs hfragments)).append hc

-- The sigils of every value that is given to a relevant name are followed up.
def Params.FollowedUp (relevant : Text → Prop) (params : Params) : Prop :=
  ∀ name, relevant name → ∀ value, Table.get? name params = some value → Followed isCut value.toText

namespace Node

-- The texts that a node brings into an expansion of all blocks are settled.
def SettledIn (allowed : Placeholder → Prop) : Node → Prop
  | text t => Settled isCut allowed t
  | block (.loop header) openTag closeTag _ =>
    if header.item.isSome then
      Settled isCut allowed header.opening ∧ Settled isCut allowed header.separator ∧
        Settled isCut allowed header.closing
    else Settled isCut allowed openTag ∧ Settled isCut allowed closeTag
  | block .. => True

instance {allowed : Placeholder → Prop} [DecidablePred allowed] :
    ∀ node, Decidable (SettledIn allowed node)
  | text t => inferInstanceAs (Decidable (Settled isCut allowed t))
  | block (.loop header) _ _ _ =>
    inferInstanceAs (Decidable (if header.item.isSome then _ ∧ _ ∧ _ else _ ∧ _))
  | block (.conditional _) _ _ _ | block .setClause _ _ _ | block .whereClause _ _ _ => isTrue trivial

-- An expansion of settled nodes is settled, if the sigils of all values that it reads are followed up.
theorem settled_expansion {allowed : Placeholder → Prop} {relevant : Text → Prop} {params : Params}
    {nodes : List Node} (hallowed : ∀ p, allowed p → relevant p.name)
    (hvalues : Params.FollowedUp relevant params)
    (hitems : ∀ header, .loop header ∈ heads nodes → ∀ item ∈ header.item, relevant item)
    (hnodes : ∀ node ∈ everyAll nodes, node.SettledIn allowed) :
    Settled isCut allowed (expansion ⟨params, .all, true⟩ nodes) := by
  induction nodes using row_induction with
  | nil =>
    rw [expansion_nil]
    exact Placeholder.settled_nil
  | text t rest ih =>
    rw [everyAll_text, List.forall_mem_cons] at hnodes
    rw [heads_text] at hitems
    rw [expansion_text]
    exact hnodes.1.append (ih hitems hnodes.2)
  | block head openTag closeTag body rest ihBody ihRest =>
    rw [everyAll_block, List.forall_mem_cons, List.forall_mem_append] at hnodes
    obtain ⟨hnode, hbody, hrest⟩ := hnodes
    have hinner := ihBody (fun header hm => hitems header (by simp [hm])) hbody
    have hbehind := ihRest (fun header hm => hitems header (by simp [hm])) hrest
    rw [expansion_block]
    refine Settled.append ?_ hbehind
    cases head with
    | conditional test =>
      change Settled isCut allowed (if Condition.holds params test then _ else [])
      split
      · exact hinner
      · exact Placeholder.settled_nil
    | loop header =>
      obtain ⟨item, opening, separator, closing⟩ := header
      cases item with
      | none => exact hnode.1.append (hinner.append hnode.2)
      | some item =>
        obtain ⟨hopening, hseparator, hclosing⟩ := hnode
        have hrelevant : relevant item :=
          hitems ⟨some item, opening, separator, closing⟩ (by simp) item rfl
        refine Loop.settled_unroll hopening hseparator hclosing hinner ?_ fun p hp =>
          hvalues p.name (hallowed p hp)
        exact fun element he =>
          Loop.cutClosed_elements Placeholder.cutClosed_followed (hvalues item hrelevant) he
    | setClause => exact SetClause.settled_ofBody hinner
    | whereClause => exact WhereClause.settled_ofBody hinner

end Node

end SqlPreview
