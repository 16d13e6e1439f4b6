import SqlPreview.Proofs.Parameter.Characters
import SqlPreview.Proofs.Template.RoundTrip

namespace SqlPreview

-- The characters that an expansion writes on its own.
def Plan.ownChars : List Char :=
  "SET\nWHERE ,\x27".toList

namespace SetClause

theorem mem_of_mem_punctuate {c : Char} {lines : List Text} {line : Text}
    (hl : line ∈ punctuate lines) (hc : c ∈ line) : c = ',' ∨ ∃ l ∈ lines, c ∈ l := by
  induction lines using punctuate.induct with
  | case1 => simp [punctuate] at hl
  | case2 last =>
    rw [punctuate, List.mem_singleton] at hl
    subst hl
    refine .inr ⟨last, by simp, ?_⟩
    simp only [withoutComma] at hc
    split at hc
    · exact List.dropLast_subset _ hc
    · exact hc
  | case3 first next rest ih =>
    rw [punctuate, List.mem_cons] at hl
    rcases hl with rfl | hl
    · simp only [withComma] at hc
      split at hc
      · exact .inr ⟨first, by simp, hc⟩
      · rw [List.mem_append, List.mem_singleton] at hc
        exact hc.symm.imp_right fun hc => ⟨first, by simp, hc⟩
    · exact (ih hl).imp_right fun ⟨l, hm, hc⟩ => ⟨l, List.mem_cons_of_mem _ hm, hc⟩

theorem mem_of_mem_ofBody {c : Char} {body : Text} (h : c ∈ ofBody body)
    (hown : c ∉ Plan.ownChars) : c ∈ body := by
  rw [ofBody, List.mem_append] at h
  rcases h with h | h
  · exact absurd (List.mem_append_left _ h) hown
  · rcases Text.mem_of_mem_intercalate h with h | ⟨line, hl, hc⟩
    · rw [List.mem_singleton] at h
      subst h
      exact absurd (by decide) hown
    · rcases mem_of_mem_punctuate hl hc with rfl | ⟨filled, hf, hc⟩
      · exact absurd (by decide) hown
      · obtain ⟨segment, hs, rfl⟩ := List.mem_map.mp (List.mem_filter.mp hf).1
        exact Text.mem_of_mem_splitOn hs (Text.mem_of_mem_trim hc)

end SetClause

namespace WhereClause

theorem withoutConnective_suffix (t : Text) : withoutConnective t <:+ t := by
  rw [withoutConnective]
  cases hf : connectives.findSome? (afterWord? · t) with
  | none => exact List.suffix_refl _
  | some rest =>
    obtain ⟨word, -, hw⟩ := List.exists_of_findSome?_eq_some hf
    simp only [afterWord?] at hw
    split at hw
    · next head behind hsplit =>
      split at hw
      · cases hw
      · cases hw
        exact (List.dropWhile_suffix _).trans ⟨head, Text.append_of_splitWord? hsplit⟩
    · cases hw

theorem mem_of_mem_ofBody {c : Char} {body : Text} (h : c ∈ ofBody body)
    (hown : c ∉ Plan.ownChars) : c ∈ body := by
  simp only [ofBody] at h
  split at h
  · simp at h
  · rw [List.mem_append] at h
    rcases h with h | h
    · have hclause : "WHERE ".toList.all Plan.ownChars.contains := by decide
      exact absurd (List.contains_iff_mem.mp (List.all_eq_true.mp hclause c h)) hown
    · exact Text.mem_of_mem_trim ((withoutConnective_suffix _).subset h)

end WhereClause

-- No attribute of the loop that is written holds the character.
def Block.Head.Avoids (head : Block.Head) (c : Char) : Prop :=
  match head with
  | .loop header => c ∉ header.opening ∧ c ∉ header.separator ∧ c ∉ header.closing
  | _ => True

instance (head : Block.Head) (c : Char) : Decidable (head.Avoids c) :=
  match head with
  | .loop _ => inferInstanceAs (Decidable (_ ∧ _ ∧ _))
  | .conditional _ | .setClause | .whereClause => isTrue trivial

namespace Loop

theorem Attribute.infix_of_read? {t rest : Text} {a : Attribute} (h : read? t = some (a, rest)) :
    a.value <:+: t ∧ rest <:+ t := by
  simp only [read?] at h
  split at h
  · cases h
  · split at h
    · next behindName hn =>
      split at h
      · next quoted hq =>
        split at h
        · next behind hb =>
          cases h
          have hname : behindName <:+ t := (List.suffix_cons '=' _).trans
            (hn ▸ (List.dropWhile_suffix _).trans (List.dropWhile_suffix _))
          have hquoted : quoted <:+ t :=
            ((List.suffix_cons '"' _).trans (hq ▸ List.dropWhile_suffix _)).trans hname
          exact ⟨(List.takeWhile_prefix _).isInfix.trans hquoted.isInfix,
            ((List.suffix_cons _ _).trans (hb ▸ List.dropWhile_suffix _)).trans hquoted⟩
        · cases h
      · cases h
    · cases h

theorem Attribute.leavesEnd_mark : Attribute.mark.LeavesEnd :=
  fun h => (Attribute.infix_of_read? h).2

-- An attribute is a part of what is read, or a bracket or a comma.
theorem Header.infix_or_eq (name t : Text) (d : Char) :
    (first? name (Attribute.mark.all t)).getD [d] <:+: t ∨
      (first? name (Attribute.mark.all t)).getD [d] = [d] := by
  cases hf : first? name (Attribute.mark.all t) with
  | none => exact .inr rfl
  | some value =>
    obtain ⟨a, ha, rfl⟩ := Option.map_eq_some_iff.mp hf
    obtain ⟨s, rest, hs, hr⟩ :=
      Mark.exists_read?_of_mem_all Attribute.leavesEnd_mark (List.mem_of_find?_eq_some ha)
    exact .inl ((Attribute.infix_of_read? hr).1.trans hs.isInfix)

theorem Header.mem_of_mem_getD {c d : Char} {name t : Text}
    (h : c ∈ (first? name (Attribute.mark.all t)).getD [d]) : c ∈ t ∨ c = d := by
  rcases infix_or_eq name t d with hpart | heq
  · exact .inl (hpart.subset h)
  · rw [heq] at h
    exact .inr (List.mem_singleton.mp h)

theorem Header.avoids_read {c : Char} {t : Text} (hc : c ∉ t) (hd : c ∉ "(,)".toList) :
    (Block.Head.loop (Header.read t)).Avoids c := by
  have hgiven : ∀ name d, d ∈ "(,)".toList → c ∉ (first? name (Attribute.mark.all t)).getD [d] := by
    intro name d hm h
    rcases mem_of_mem_getD h with h | rfl
    · exact hc h
    · exact hd hm
  exact ⟨hgiven _ _ (by decide), hgiven _ _ (by decide), hgiven _ _ (by decide)⟩

end Loop

namespace Node

-- A character that is not printed stands in no text and in no attribute of the tree.
theorem avoids_of_not_mem_printAll {nodes : List Node} {c : Char} (hl : LawfulAll nodes)
    (hc : c ∉ printAll nodes) (hd : c ∉ "(,)".toList) :
    (∀ t ∈ texts nodes, c ∉ t) ∧ ∀ head ∈ heads nodes, head.Avoids c := by
  induction nodes using row_induction with
  | nil => simp
  | text t rest ih =>
    rw [printAll_text, List.mem_append, not_or] at hc
    rw [texts_text, List.forall_mem_cons, heads_text]
    obtain ⟨htexts, hheads⟩ := ih (lawfulAll_text.mp hl).2 hc.2
    exact ⟨⟨hc.1, htexts⟩, hheads⟩
  | block head openTag closeTag body rest ihBody ihRest =>
    simp only [printAll_block, List.mem_append, not_or] at hc
    obtain ⟨hopen, hbody, -, hrest⟩ := hc
    obtain ⟨⟨ho, -⟩, hlbody, hlrest⟩ := lawfulAll_block.mp hl
    obtain ⟨htbody, hhbody⟩ := ihBody hlbody hbody
    obtain ⟨htrest, hhrest⟩ := ihRest hlrest hrest
    rw [texts_block, List.forall_mem_append, heads_block, List.forall_mem_cons,
      List.forall_mem_append]
    refine ⟨⟨htbody, htrest⟩, ?_, hhbody, hhrest⟩
    cases head with
    | loop header =>
      obtain ⟨name, blanks, attributes, -, -, -, -, rfl, rfl⟩ := ho
      exact Loop.Header.avoids_read (fun h => hopen (by simp [h])) hd
    | _ => trivial

end Node

namespace Plan

-- An expanded block holds no character that its body, its attributes and the values do without.
theorem not_mem_write {plan : Plan} {head : Block.Head} {inner : Text} {c : Char}
    (hown : c ∉ ownChars) (hs : plan.fillLoops → c ≠ Placeholder.shieldChar)
    (hp : Params.Avoid plan.params c) (hh : head.Avoids c) (hi : c ∉ inner) :
    c ∉ plan.write head inner := by
  have hq : c ≠ '\x27' := by
    rintro rfl
    exact hown (by decide)
  intro h
  cases head with
  | conditional test =>
    simp only [write] at h
    split at h
    · exact hi h
    · simp at h
  | loop header =>
    obtain ⟨ho, hsep, hc⟩ := hh
    simp only [write] at h
    split at h
    · next item _ =>
      simp only [Loop.unroll, List.mem_append] at h
      rcases h with (h | h) | h
      · exact ho h
      · rcases Text.mem_of_mem_intercalate h with h | ⟨fragment, hf, h⟩
        · exact hsep h
        · obtain ⟨element, he, rfl⟩ := List.mem_map.mp hf
          have helement : c ∉ (Loop.boundForm element).toText := fun h =>
            Params.Avoid.not_mem_element hp he (Loop.mem_of_mem_boundForm h)
          refine Placeholder.not_mem_bindElement hq ?_ hi helement ?_ (Text.mem_of_mem_trim h)
          · intro hfill
            exact hs (by simpa [outer] using hfill)
          · intro params hparams
            simp only [outer, Option.mem_ite_none_right, Option.mem_some_iff] at hparams
            exact hparams.2 ▸ hp
      · exact hc h
    · simp at h
  | setClause => exact hi (SetClause.mem_of_mem_ofBody h hown)
  | whereClause => exact hi (WhereClause.mem_of_mem_ofBody h hown)

end Plan

namespace Node

-- A text in which all blocks are expanded holds no character that the texts, the attributes and the
-- values do without.
theorem not_mem_expansion {plan : Plan} {nodes : List Node} {c : Char} (hown : c ∉ Plan.ownChars)
    (hs : plan.fillLoops → c ≠ Placeholder.shieldChar) (hp : Params.Avoid plan.params c)
    (ht : ∀ t ∈ texts nodes, c ∉ t)
    (hh : ∀ head ∈ heads nodes, plan.expands head ∧ head.Avoids c) : c ∉ expansion plan nodes := by
  induction nodes using row_induction with
  | nil => simp
  | text t rest ih =>
    rw [texts_text, List.forall_mem_cons] at ht
    rw [heads_text] at hh
    rw [expansion_text, List.mem_append, not_or]
    exact ⟨ht.1, ih ht.2 hh⟩
  | block head openTag closeTag body rest ihBody ihRest =>
    rw [texts_block, List.forall_mem_append] at ht
    rw [heads_block, List.forall_mem_cons, List.forall_mem_append] at hh
    obtain ⟨⟨hexpands, havoids⟩, hbody, hrest⟩ := hh
    rw [expansion_block, if_pos hexpands, List.mem_append, not_or]
    exact ⟨Plan.not_mem_write hown hs hp havoids (ihBody ht.1 hbody), ihRest ht.2 hrest⟩

end Node

end SqlPreview
