import SqlPreview.Block.Loop
import SqlPreview.Proofs.Table
import SqlPreview.Proofs.Text.Cut
import SqlPreview.Proofs.Text.Mark

namespace SqlPreview

open Text (CutClosed)

namespace Value

theorem mem_toText_of_mem_item {c : Char} {item : Value} {items : List Value} (hi : item ∈ items)
    (hc : c ∈ item.toText) : c ∈ (list items).toText := by
  rw [toText, itemTexts_eq_map]
  exact Text.mem_intercalate_of_mem (List.mem_map_of_mem hi) hc

end Value

theorem Form.mem_of_mem_write {c : Char} {form : Form} {t : Text} (h : c ∈ form.write t)
    (hq : c ≠ '\x27') : c ∈ t := by
  cases form with
  | plain => exact h
  | quoted =>
    simp only [write] at h
    split at h
    · exact h
    · simpa [hq] using h

theorem Form.count_write {c : Char} (hq : c ≠ '\x27') (form : Form) (t : Text) :
    (form.write t).count c = t.count c := by
  cases form with
  | plain => rfl
  | quoted =>
    simp only [write]
    split
    · rfl
    · simp [List.count_append, Ne.symm hq]

section Values

variable {P : Text → Prop} (hP : CutClosed P)
include hP

theorem Value.cutClosed_field {name : Text} {value field : Value} (h : P value.toText)
    (hf : value.field? name = some field) : P field.toText := by
  cases value with
  | record fields =>
    rw [toText, fieldTexts_eq_map] at h
    have hm := List.mem_map_of_mem (f := fun field => toText field.2) (Table.mem_of_get?_eq_some hf)
    exact hP.of_intercalate rfl h hm
  | _ => simp [field?] at hf

theorem Loop.cutClosed_textElements {t : Text} {element : Value} (h : P t)
    (he : element ∈ textElements t) : P element.toText := by
  have htrim := hP.trim h
  simp only [textElements] at he
  split at he
  · cases he
  · split at he
    · simp only [List.mem_map, List.mem_reverse] at he
      obtain ⟨part, hp, rfl⟩ := he
      have hpart := (List.dropWhile_suffix _).subset hp
      rw [List.mem_reverse, List.mem_map] at hpart
      obtain ⟨segment, hs, rfl⟩ := hpart
      rw [Value.toText]
      exact hP.trim (hP.of_splitOn rfl htrim hs)
    · rw [List.mem_singleton.mp he, Value.toText]
      exact htrim

-- The elements that a loop runs over are cut out of its parameter.
theorem Loop.cutClosed_elements {given : Option Value} {element : Value}
    (h : ∀ value ∈ given, P value.toText) (he : element ∈ elements given) : P element.toText := by
  cases given with
  | none => cases he
  | some value =>
    have hvalue := h value rfl
    cases value with
    | null => cases he
    | list items =>
      rw [Value.toText, Value.itemTexts_eq_map] at hvalue
      exact hP.of_intercalate rfl hvalue (List.mem_map_of_mem he)
    | text t =>
      rw [Value.toText] at hvalue
      exact cutClosed_textElements hP hvalue he
    | _ =>
      simp only [elements, List.mem_singleton] at he
      rwa [he]

theorem Loop.cutClosed_boundForm {element : Value} (h : P element.toText) :
    P (boundForm element).toText := by
  cases element with
  | record fields => exact h
  | _ =>
    simp only [boundForm, Value.toText] at h ⊢
    exact hP.trim h

theorem Placeholder.cutClosed_bound? {item name : Text} {element value : Value}
    (h : P element.toText) (hb : bound? item element name = some value) : P value.toText := by
  simp only [bound?] at hb
  split at hb
  · cases hb
    exact h
  · obtain ⟨field, -, hf⟩ := Option.bind_eq_some_iff.mp hb
    exact Value.cutClosed_field hP h hf

end Values

theorem Loop.mem_of_mem_boundForm {c : Char} {element : Value}
    (h : c ∈ (boundForm element).toText) : c ∈ element.toText :=
  Classical.byContradiction fun hnot => cutClosed_boundForm (Text.cutClosed_not_mem c) hnot h

-- No value holds the character.
def Params.Avoid (params : Params) (c : Char) : Prop :=
  ∀ name value, Table.get? name params = some value → c ∉ value.toText

theorem Params.avoid_of_forall_mem {params : Params} {c : Char}
    (h : ∀ entry ∈ params, c ∉ entry.2.toText) : Params.Avoid params c :=
  fun _ _ hv => h _ (Table.mem_of_get?_eq_some hv)

theorem Params.Avoid.not_mem_element {params : Params} {c : Char} {item : Text} {element : Value}
    (h : Params.Avoid params c) (he : element ∈ Loop.elements (params.get? item)) :
    c ∉ element.toText :=
  Loop.cutClosed_elements (Text.cutClosed_not_mem c) (h item) he

namespace Placeholder

theorem mem_of_mem_bound? {c : Char} {item name : Text} {element value : Value}
    (hb : bound? item element name = some value) (hc : c ∈ value.toText) : c ∈ element.toText :=
  Classical.byContradiction fun h => cutClosed_bound? (Text.cutClosed_not_mem c) h hb hc

theorem leavesEnd_mark : mark.LeavesEnd := by
  intro t p rest h
  exact ⟨p.toText, append_of_read? h⟩

theorem mem_of_mem_toText {c : Char} {p : Placeholder} {t : Text} (hp : p ∈ mark.all t)
    (hc : c ∈ p.toText) : c ∈ t := by
  obtain ⟨s, rest, hs, hr⟩ := Mark.exists_read?_of_mem_all leavesEnd_mark hp
  refine hs.subset ?_
  rw [← append_of_read? hr]
  exact List.mem_append_left _ hc

theorem mem_of_mem_fill {c : Char} {params : Params} {p : Placeholder} (h : c ∈ fill params p)
    (hq : c ≠ '\x27') : ∃ value, params.get? p.name = some value ∧ c ∈ value.toText := by
  simp only [fill] at h
  split at h
  · next value hv =>
    split at h
    · simp at h
    · exact ⟨value, hv, Form.mem_of_mem_write h hq⟩
  · simp at h

-- A text without braces needs no shield.
theorem shield_eq_self {t : Text} (h : '{' ∉ t) : shield t = t := by
  fun_induction shield t with
  | case1 => rfl
  | case2 t ih => simp at h
  | case3 t ih => simp at h
  | case4 c t _ _ ih => rw [ih fun hc => h (List.mem_cons_of_mem _ hc)]

theorem mem_of_mem_shield {c : Char} {t : Text} (h : c ∈ shield t) (hs : c ≠ shieldChar) : c ∈ t := by
  fun_induction shield t with
  | case1 => exact h
  | case2 t ih =>
    simp only [List.mem_cons] at h ⊢
    rcases h with h | h | h | h
    · exact .inl h
    · exact absurd h hs
    · exact .inr (.inl h)
    · exact .inr (.inr (ih h))
  | case3 t ih =>
    simp only [List.mem_cons] at h ⊢
    rcases h with h | h | h | h
    · exact .inl h
    · exact absurd h hs
    · exact .inr (.inl h)
    · exact .inr (.inr (ih h))
  | case4 c t _ _ ih =>
    rw [List.mem_cons] at h ⊢
    exact h.imp_right ih

-- What stands for a placeholder of a loop body holds characters of the placeholder itself, of the
-- element, or of an outer value.
theorem mem_of_mem_bind {c : Char} {item : Text} {element : Value} {outer : Option Params}
    {p : Placeholder} (h : c ∈ bind item element outer p) (hq : c ≠ '\x27')
    (hs : outer.isSome → c ≠ shieldChar) :
    c ∈ p.toText ∨ c ∈ element.toText ∨
      ∃ params ∈ outer, ∃ name value, params.get? name = some value ∧ c ∈ value.toText := by
  simp only [bind] at h
  split at h
  · next value hb => exact .inr (.inl (mem_of_mem_bound? hb (Form.mem_of_mem_write h hq)))
  · next value params hb =>
    have hw := mem_of_mem_shield h (hs rfl)
    exact .inr (.inl (mem_of_mem_bound? hb (Form.mem_of_mem_write hw hq)))
  · exact .inl h
  · next params hb =>
    obtain ⟨value, hv, hc⟩ := mem_of_mem_fill (mem_of_mem_shield h (hs rfl)) hq
    exact .inr (.inr ⟨params, rfl, p.name, value, hv, hc⟩)

theorem not_mem_bindElement {c : Char} {item body : Text} {element : Value}
    {outer : Option Params} (hq : c ≠ '\x27') (hs : outer.isSome → c ≠ shieldChar) (hb : c ∉ body)
    (he : c ∉ element.toText) (hp : ∀ params ∈ outer, Params.Avoid params c) :
    c ∉ bindElement item element outer body := by
  intro h
  rcases Mark.mem_of_mem_replace leavesEnd_mark h with h | ⟨p, hm, h⟩
  · exact hb h
  · rcases mem_of_mem_bind h hq hs with h | h | ⟨params, hparams, name, value, hv, h⟩
    · exact hb (mem_of_mem_toText hm h)
    · exact he h
    · exact hp params hparams name value hv h

theorem not_mem_fillAll {c : Char} {params : Params} {t : Text} (hq : c ≠ '\x27') (ht : c ∉ t)
    (hp : Params.Avoid params c) : c ∉ fillAll params t := by
  intro h
  rcases Mark.mem_of_mem_replace leavesEnd_mark h with h | ⟨p, -, h⟩
  · exact ht h
  · obtain ⟨value, hv, hc⟩ := mem_of_mem_fill h hq
    exact hp p.name value hv hc

end Placeholder

end SqlPreview
