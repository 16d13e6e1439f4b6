import SqlPreview.Proofs.Parameter.Element
import SqlPreview.Proofs.Parameter.Shield

namespace SqlPreview

theorem mem_of_isNumeral {t : Text} {c : Char} (h : isNumeral t) (hc : c ∈ t) :
    c.isDigit ∨ c = '-' ∨ c = '.' := by
  have hsize : ∀ size : Text, isNumeral ('-' :: size) → c ∈ size → c.isDigit ∨ c = '.' := by
    intro size hs hm
    rw [← List.takeWhile_append_dropWhile (p := Char.isDigit) (l := size), List.mem_append] at hm
    simp only [isNumeral, Bool.and_eq_true] at hs
    rcases hm with hm | hm
    · exact .inl (List.all_eq_true.mp List.all_takeWhile c hm)
    · have hrest := hs.2
      split at hrest
      · next heq => simp [heq] at hm
      · next fraction heq =>
        rw [Bool.and_eq_true] at hrest
        rw [heq, List.mem_cons] at hm
        exact hm.symm.imp_left fun hm => List.all_eq_true.mp hrest.2 c hm
      · cases hrest
  cases t with
  | nil => cases hc
  | cons d t =>
    by_cases hd : d = '-'
    · subst hd
      rcases List.mem_cons.mp hc with hc | hc
      · exact .inr (.inl hc)
      · exact (hsize t h hc).imp_right .inr
    · have hsign : isNumeral ('-' :: d :: t) = isNumeral (d :: t) := by
        simp [isNumeral, hd]
      exact (hsize (d :: t) (hsign.trans h) hc).imp_right .inr

namespace Placeholder

theorem not_mem_toText {p : Placeholder} {c : Char} (h : Name.isName p.name)
    (hname : Name.isNameChar c = false) (hc : c ∉ "#$\x7b\x7d".toList) : c ∉ p.toText := by
  intro hm
  simp only [toText, List.mem_cons, List.mem_append, List.not_mem_nil, or_false] at hm
  rcases hm with (rfl | rfl | hm) | rfl
  · refine hc ?_
    cases p.form <;> decide
  · exact hc (by decide)
  · rw [Name.isNameChar_of_mem h hm] at hname
    cases hname
  · exact hc (by decide)

theorem unshield_eq_self {t : Text} (h : shieldChar ∉ t) : unshield t = t :=
  List.filter_eq_self.mpr fun _ hc => Text.ne_of_not_mem h hc

theorem unshield_append (s t : Text) : unshield (s ++ t) = unshield s ++ unshield t :=
  List.filter_append s t

theorem unshield_space_cons (t : Text) : unshield (' ' :: t) = ' ' :: unshield t :=
  rfl

theorem fillAll_space_cons (params : Params) (t : Text) :
    fillAll params (' ' :: t) = ' ' :: fillAll params t :=
  Mark.replace_cons _ (read?_eq_none rfl t)

theorem mem_fill_iff {params : Params} {p : Placeholder} {c : Char} (hb : Text.isBlank c = false)
    (hq : c ≠ '\x27') : c ∈ fill params p ↔ ∃ value ∈ params.get? p.name, c ∈ value.toText := by
  constructor
  · intro h
    obtain ⟨value, hv, hc⟩ := mem_of_mem_fill h hq
    exact ⟨value, hv, hc⟩
  · rintro ⟨value, hv, hc⟩
    have hblank : value.isBlank = false := by
      rw [Value.isBlank_eq_allBlank_toText]
      exact Text.allBlank_eq_false_of_mem hc hb
    rw [Option.mem_def] at hv
    rw [fill, hv]
    simp only [hblank]
    rw [← List.count_pos_iff] at hc ⊢
    simpa [Form.count_write hq] using hc

-- A character of which no placeholder is made is in a filled text if and only if it is in the text or in
-- a value that is filled in.
theorem mem_fillAll_iff {params : Params} {t : Text} {c : Char} (hb : Text.isBlank c = false)
    (hq : c ≠ '\x27') (hname : Name.isNameChar c = false) (hc : c ∉ "#$\x7b\x7d".toList) :
    c ∈ fillAll params t ↔
      c ∈ t ∨ ∃ p ∈ mark.all t, ∃ value ∈ params.get? p.name, c ∈ value.toText := by
  constructor
  · intro h
    refine (Mark.mem_of_mem_replace leavesEnd_mark h).imp_right ?_
    rintro ⟨p, hp, hfill⟩
    exact ⟨p, hp, (mem_fill_iff hb hq).mp hfill⟩
  · rintro (ht | ⟨p, hp, hvalue⟩)
    · have hself : mark.replace toText t = t := Mark.replace_eq_self append_of_read? t
      have hnone : ∀ p, .mark p ∈ mark.scan t → p.toText.count c ≤ (fill params p).count c := by
        intro p hp
        have hm : p ∈ mark.all t := List.mem_filterMap.mpr ⟨.mark p, hp, rfl⟩
        rw [List.count_eq_zero.mpr (not_mem_toText (isName_of_mem_all hm) hname hc)]
        exact Nat.zero_le _
      have hcount : (mark.replace toText t).count c ≤ (fillAll params t).count c :=
        Piece.count_flatMap_write_le hnone
      rw [hself] at hcount
      exact List.count_pos_iff.mp (Nat.lt_of_lt_of_le (List.count_pos_iff.mpr ht) hcount)
    · exact Mark.mem_replace_of_mem hp ((mem_fill_iff hb hq).mpr hvalue)

-- A placeholder between two texts.
def amid (p : Placeholder) (before after : Text) : Text :=
  before ++ ' ' :: (p.toText ++ ' ' :: after)

theorem fillAll_amid {p : Placeholder} {before after : Text} (hp : Name.isName p.name)
    (hbefore : ∀ c ∈ before, Form.ofSigil? c = none) (hafter : ∀ c ∈ after, Form.ofSigil? c = none)
    (params : Params) :
    fillAll params (p.amid before after) = before ++ ' ' :: (fill params p ++ ' ' :: after) := by
  let body : List (Piece Placeholder) :=
    before.map .char ++ .char ' ' :: .mark p :: .char ' ' :: after.map .char
  have hfind : ∀ piece ∈ body, Findable piece := by
    intro piece hm
    simp only [body, List.mem_append, List.mem_cons, List.mem_map] at hm
    rcases hm with ⟨c, hc, rfl⟩ | rfl | rfl | rfl | ⟨c, hc, rfl⟩
    · exact hbefore c hc
    · rfl
    · exact hp
    · rfl
    · exact hafter c hc
  have hwrite : ∀ write : Placeholder → Text,
      body.flatMap (Piece.write write) = before ++ ' ' :: (write p ++ ' ' :: after) := by
    intro write
    simp [body, List.flatMap_map, Piece.write]
  have hreplace := replace_written hfind (fill params)
  rwa [written, hwrite, hwrite] at hreplace

end Placeholder

end SqlPreview
