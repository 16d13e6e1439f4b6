import Mathlib.Data.List.Chain
import SqlPreview.Proofs.Parameter.Settled
import SqlPreview.Template.Expansion

namespace SqlPreview

theorem Form.eq_or_eq_of_ofSigil? {c : Char} (h : ofSigil? c ≠ none) : c = '#' ∨ c = '$' := by
  unfold ofSigil? at h
  split at h
  · exact .inl rfl
  · exact .inr rfl
  · exact absurd rfl h

namespace Placeholder

theorem head?_shield (t : Text) : (shield t).head? = t.head? := by
  unfold shield
  split <;> rfl

theorem getLast?_shield (t : Text) : (shield t).getLast? = t.getLast? := by
  fun_induction shield t with
  | case1 => rfl
  | case2 t ih => simp [List.getLast?_cons, ih]
  | case3 t ih => simp [List.getLast?_cons, ih]
  | case4 c t _ _ ih => simp [List.getLast?_cons, ih]

-- In a shielded text no sigil stands before a brace.
theorem isChain_shield (t : Text) :
    (shield t).IsChain fun c d => Form.ofSigil? c ≠ none → d ≠ '{' := by
  fun_induction shield t with
  | case1 => exact List.IsChain.nil
  | case2 t ih =>
    refine List.isChain_cons.mpr ⟨?_, List.isChain_cons.mpr ⟨?_, List.isChain_cons.mpr ⟨?_, ih⟩⟩⟩
    all_goals simp [Form.ofSigil?, shieldChar]
  | case3 t ih =>
    refine List.isChain_cons.mpr ⟨?_, List.isChain_cons.mpr ⟨?_, List.isChain_cons.mpr ⟨?_, ih⟩⟩⟩
    all_goals simp [Form.ofSigil?, shieldChar]
  | case4 c t hquoted hplain ih =>
    refine List.isChain_cons.mpr ⟨fun d hd hc => ?_, ih⟩
    rintro rfl
    rw [head?_shield] at hd
    obtain ⟨behind, rfl⟩ := List.head?_eq_some_iff.mp hd
    rcases Form.eq_or_eq_of_ofSigil? hc with rfl | rfl
    · exact hquoted behind rfl rfl
    · exact hplain behind rfl rfl

theorem read?_eq_none_of_suffix_shield {s t : Text} (h : s <:+ shield t) : read? s = none := by
  cases hr : read? s with
  | none => rfl
  | some found =>
    cases s with
    | nil => cases hr
    | cons c s =>
      obtain ⟨hc, hbrace⟩ := ofSigil?_of_read? hr
      exact absurd rfl ((List.isChain_cons.mp ((isChain_shield t).suffix h)).1 '{' hbrace hc)

-- Every sigil stands before a character before which the text is not cut.
abbrev Followed (cut : Char → Bool) (t : Text) : Prop :=
  AtSigils (fun _ behind => ∃ d ∈ behind.head?, cut d = false) t

instance {cut : Char → Bool} {t : Text} : Decidable (Followed cut t) :=
  have (behind : Text) : Decidable (∃ d ∈ behind.head?, cut d = false) :=
    decidable_of_iff (behind.head?.any fun d => cut d = false) (by simp [Option.any_eq_true])
  decidableAtSigils t

-- A text that does not end in a sigil is followed up where nothing is cut.
theorem followed_of_getLast? {t : Text} (h : ∀ c ∈ t.getLast?, Form.ofSigil? c = none) :
    Followed (fun _ => false) t := by
  rintro c behind ⟨before, rfl⟩ hc
  cases behind with
  | nil => exact absurd (h c (by simp)) hc
  | cons d behind => exact ⟨d, rfl, rfl⟩

theorem sealed_shield {cut : Char → Bool} {t : Text} (hshield : cut shieldChar = false)
    (h : Followed cut t) : Sealed cut (shield t) := by
  have hsealed : ∀ {t}, Sealed cut t → Sealed cut (shieldChar :: '{' :: t) := fun ht =>
    settled_cons.mpr ⟨fun hc => absurd rfl hc, settled_cons.mpr ⟨fun hc => absurd rfl hc, ht⟩⟩
  have hloose : ∀ t, Loose cut (shieldChar :: t) := fun t =>
    ⟨⟨shieldChar, rfl, hshield, by decide⟩, read?_eq_none rfl t⟩
  have hchain := isChain_shield t
  fun_induction shield t with
  | case1 => exact settled_nil
  | case2 t ih =>
    have hrest := ih (h.suffix (List.suffix_append ['#', '{'] t)) (isChain_shield t)
    exact settled_cons.mpr ⟨fun _ => .inr (hloose _), hsealed hrest⟩
  | case3 t ih =>
    have hrest := ih (h.suffix (List.suffix_append ['$', '{'] t)) (isChain_shield t)
    exact settled_cons.mpr ⟨fun _ => .inr (hloose _), hsealed hrest⟩
  | case4 c t _ _ ih =>
    obtain ⟨hbrace, hrest⟩ := List.isChain_cons.mp hchain
    refine settled_cons.mpr ⟨fun hc => .inr ?_, ih (h.suffix (List.suffix_cons c t)) hrest⟩
    obtain ⟨d, hd, hkeep⟩ := h c t (List.suffix_refl _) hc
    rw [← head?_shield] at hd
    exact ⟨⟨d, hd, hkeep, hbrace d hd hc⟩, read?_eq_none_of_suffix_shield (List.suffix_refl _)⟩

-- The parts of a loop body that is filled: its characters, and what stands for its placeholders.
def boundParts (item : Text) (element : Value) (params : Params) (body : Text) : List Text :=
  (mark.scan body).map (Piece.write (bind item element (some params)))

section Bound

variable {item body : Text} {element : Value} {params : Params}

theorem flatten_boundParts :
    (boundParts item element params body).flatten = bindElement item element (some params) body :=
  rfl

theorem bind_eq_shield (item : Text) (element : Value) (params : Params) (p : Placeholder) :
    ∃ t, bind item element (some params) p = shield t := by
  unfold bind
  split
  · next heq => cases heq
  · exact ⟨_, rfl⟩
  · next heq => cases heq
  · exact ⟨_, rfl⟩

theorem eq_of_mem_boundParts {part : Text} (h : part ∈ boundParts item element params body) :
    (∃ c, part = [c]) ∨ ∃ t, part = shield t := by
  obtain ⟨piece, -, rfl⟩ := List.mem_map.mp h
  cases piece with
  | char c => exact .inl ⟨c, rfl⟩
  | mark p => exact .inr (bind_eq_shield item element params p)

end Bound

-- An end of a joined row of texts begins in one of them.
theorem exists_of_suffix_flatten {c : Char} {s : Text} {parts : List Text}
    (h : c :: s <:+ parts.flatten) :
    ∃ before first behind after, parts = before ++ (first ++ c :: behind) :: after ∧
      s = behind ++ after.flatten := by
  induction parts with
  | nil => simp at h
  | cons part parts ih =>
    obtain ⟨lead, hlead⟩ := h
    rw [List.flatten_cons] at hlead
    rcases List.append_eq_append_iff.mp hlead with ⟨inside, hpart, hs⟩ | ⟨inside, -, hs⟩
    · cases inside with
      | nil =>
        obtain ⟨before, first, behind, after, rfl, hrest⟩ := ih (hs ▸ List.suffix_refl _)
        exact ⟨part :: before, first, behind, after, rfl, hrest⟩
      | cons d inside =>
        rw [List.cons_append, List.cons.injEq] at hs
        exact ⟨[], lead, inside, parts, by rw [hpart, hs.1]; rfl, hs.2⟩
    · obtain ⟨before, first, behind, after, rfl, hrest⟩ := ih ⟨inside, hs.symm⟩
      exact ⟨part :: before, first, behind, after, rfl, hrest⟩

-- A text is final exactly if it holds no placeholder: filling with nothing takes placeholders out.
theorem forall_fillAll_eq_iff {t : Text} : (∀ later, fillAll later t = t) ↔ mark.all t = [] := by
  refine ⟨fun h => List.eq_nil_iff_forall_not_mem.mpr fun p hp => ?_,
    fun h later => Mark.replace_eq_self_of_all_eq_nil h _⟩
  obtain ⟨piece, hm, hmark⟩ := List.mem_filterMap.mp hp
  cases piece with
  | char c => cases hmark
  | mark q =>
    cases hmark
    have hempty : ∀ q : Placeholder, (fill [] q).count '}' = 0 := fun _ => rfl
    have hclosed : ∀ q : Placeholder, 0 < q.toText.count '}' := fun q =>
      List.count_pos_iff.mpr (by simp [toText])
    have hlt : (mark.replace (fill []) t).count '}' < (mark.replace toText t).count '}' := by
      refine Piece.count_flatMap_write_lt (fun q _ => ?_) hm ?_
      · rw [hempty]
        exact Nat.zero_le _
      · rw [hempty]
        exact hclosed p
    have hself : mark.replace toText t = t := Mark.replace_eq_self append_of_read? t
    rw [← fillAll, h [], hself] at hlt
    exact Nat.lt_irrefl _ hlt

section Bound

variable {item body : Text} {element : Value} {params : Params}

-- A placeholder of a filled body begins with the last character of a part.
theorem all_bindElement_eq_nil_iff :
    mark.all (bindElement item element (some params) body) = [] ↔
      ∀ before part after, boundParts item element params body = before ++ part :: after →
        ∀ sigil ∈ part.getLast?, read? (sigil :: after.flatten) = none := by
  rw [← flatten_boundParts]
  constructor
  · intro hnil before part after hparts sigil hsigil
    obtain ⟨first, rfl⟩ := List.getLast?_eq_some_iff.mp hsigil
    have hsuffix : sigil :: after.flatten <:+ (boundParts item element params body).flatten := by
      rw [hparts]
      exact ⟨before.flatten ++ first, by simp⟩
    cases hr : read? (sigil :: after.flatten) with
    | none => rfl
    | some found =>
      have hm := mem_all_of_suffix hsuffix hr
      rw [hnil] at hm
      cases hm
  · intro hseams
    refine List.eq_nil_iff_forall_not_mem.mpr fun p hp => ?_
    obtain ⟨s, rest, hs, hr⟩ := Mark.exists_read?_of_mem_all leavesEnd_mark hp
    cases s with
    | nil => cases hr
    | cons c s =>
      obtain ⟨before, first, behind, after, hparts, rfl⟩ := exists_of_suffix_flatten hs
      cases behind with
      | nil => cases hr.symm.trans (hseams _ _ _ hparts c (by simp))
      | cons d behind =>
        have hm : first ++ c :: d :: behind ∈ boundParts item element params body := by
          simp [hparts]
        obtain ⟨hc, hbrace⟩ := ofSigil?_of_read? hr
        rcases eq_of_mem_boundParts hm with ⟨e, he⟩ | ⟨t, ht⟩
        · have hlength := congrArg List.length he
          simp only [List.length_append, List.length_cons, List.length_nil] at hlength
          omega
        · have hchain := (isChain_shield t).suffix (ht ▸ List.suffix_append first _)
          exact absurd (Option.some.inj hbrace) ((List.isChain_cons.mp hchain).1 d rfl hc)

theorem sealed_bindElement (hbody : Settled (fun _ => false) (fun _ => True) body)
    (hvalues : ∀ p ∈ mark.all body, ∀ c ∈ (bind item element (some params) p).getLast?,
      Form.ofSigil? c = none) :
    Sealed (fun _ => false) (bindElement item element (some params) body) := by
  refine hbody.replace fun p hp => ?_
  obtain ⟨t, ht⟩ := bind_eq_shield item element params p
  have hlast := hvalues p hp
  rw [ht, getLast?_shield] at hlast
  rw [ht]
  exact sealed_shield rfl (followed_of_getLast? hlast)

end Bound

-- A filled loop body is final, whatever is filled in later, exactly if no part of it ends in a sigil
-- that begins a placeholder together with the parts behind it. So it is whenever every sigil of the
-- body is settled and no value ends in a sigil; then it is not searched again between other texts.
theorem bindElement_final (item : Text) (element : Value) (params : Params) (body : Text) :
    let bound := bindElement item element (some params) body
    ((∀ later, fillAll later bound = bound) ↔
        ∀ before part after, boundParts item element params body = before ++ part :: after →
          ∀ sigil ∈ part.getLast?, read? (sigil :: after.flatten) = none) ∧
      (Settled (fun _ => false) (fun _ => True) body →
        (∀ p ∈ mark.all body, ∀ c ∈ (bind item element (some params) p).getLast?,
          Form.ofSigil? c = none) →
        ∀ later before after, Settled (fun _ => false) (fun _ => True) before →
          fillAll later (before ++ (bound ++ after)) =
            fillAll later before ++ (bound ++ fillAll later after)) := by
  intro bound
  refine ⟨forall_fillAll_eq_iff.trans all_bindElement_eq_nil_iff, ?_⟩
  intro hbody hvalues later before after hbefore
  have hbound : Sealed (fun _ => false) bound := sealed_bindElement hbody hvalues
  have hself : fillAll later bound = bound := forall_fillAll_eq_iff.mpr hbound.all_eq_nil later
  have hbehind : fillAll later (bound ++ after) = fillAll later bound ++ fillAll later after :=
    hbound.replace_append _ _
  calc fillAll later (before ++ (bound ++ after))
      = fillAll later before ++ fillAll later (bound ++ after) := hbefore.replace_append _ _
    _ = fillAll later before ++ (bound ++ fillAll later after) := by rw [hbehind, hself]

-- A value that asks for another one, between a placeholder and a brace: it is not searched.
theorem bindElement_final_nested :
    let params : Params := [("a".toList, .text "#\x7bb\x7d".toList), ("b".toList, .text "x".toList)]
    let body := "#\x7bid\x7d,$\x7ba\x7d.".toList
    let element := Value.text "$\x7bb\x7d".toList
    let bound := bindElement "id".toList element (some params) body
    Settled (fun _ => false) (fun _ => True) body ∧
      fillAll params ("#\x7bb\x7d:".toList ++ (bound ++ "\x7bb\x7d".toList)) =
        "\x27x\x27:".toList ++ (bound ++ "\x7bb\x7d".toList) := by
  intro params body element bound
  have hbody : Settled (fun _ => false) (fun _ => True) body := by decide +kernel
  have hlast : (mark.all body).all fun p =>
      (bind "id".toList element (some params) p).getLast?.all fun c =>
        (Form.ofSigil? c).isNone := by decide +kernel
  have hvalues : ∀ p ∈ mark.all body, ∀ c ∈ (bind "id".toList element (some params) p).getLast?,
      Form.ofSigil? c = none := by
    simpa [Option.all_eq_true] using hlast
  have hfinal := (bindElement_final "id".toList element params body).2 hbody hvalues params
    "#\x7bb\x7d:".toList "\x7bb\x7d".toList (by decide +kernel)
  refine ⟨hbody, hfinal.trans ?_⟩
  decide +kernel

-- A value that begins with a brace takes the sigil before it: what comes out is filled once more, in a
-- render too.
theorem bindElement_not_final :
    let params : Params :=
      [("id".toList, .list [.text "\x7bsecret\x7d".toList]), ("secret".toList, .text "x".toList)]
    let element := Value.text "\x7bsecret\x7d".toList
    let bound := bindElement "id".toList element (some params) "#$\x7bid\x7d".toList
    bound = "#\x7bsecret\x7d".toList ∧ fillAll params bound = "\x27x\x27".toList ∧
      fillAll params bound ≠ bound ∧
      render "<foreach item=\x22id\x22>#$\x7bid\x7d</foreach>".toList params =
        "(\x27x\x27)".toList := by
  decide +kernel

end Placeholder

end SqlPreview
