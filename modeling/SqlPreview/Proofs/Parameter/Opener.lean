import SqlPreview.Proofs.Parameter.Filled

namespace SqlPreview

namespace Form

def opener (form : Form) : Text :=
  [form.sigil, '{']

theorem ofSigil?_sigil (form : Form) : ofSigil? form.sigil = some form := by
  cases form <;> rfl

theorem sigil_inj {form other : Form} : form.sigil = other.sigil ↔ form = other := by
  cases form <;> cases other <;> decide

theorem length_lt_of_after?_opener {form : Form} {t rest : Text}
    (h : Text.after? form.opener t = some rest) : rest.length < t.length := by
  rw [Text.after?_eq_some_iff.mp h, List.length_append]
  apply Nat.lt_add_of_pos_left
  exact Nat.zero_lt_succ 1

theorem after?_opener_eq_none_iff {form : Form} {c : Char} {t : Text} :
    Text.after? form.opener (c :: t) = none ↔ (c = form.sigil → t.head? ≠ some '{') := by
  rw [Option.eq_none_iff_forall_ne_some]
  simp only [ne_eq, Text.after?_eq_some_iff, opener, List.cons_append, List.nil_append,
    List.cons.injEq, List.head?_eq_some_iff, not_and, not_exists]
  exact forall_comm

-- A text in which the sigils of one form are kept from the braces behind them.
def breakUp (form : Form) (t : Text) : Text :=
  (Mark.ofRest (Text.after? form.opener) length_lt_of_after?_opener).replace
    (fun _ => [form.sigil, Placeholder.shieldChar, '{']) t

section BreakUp

variable {form other : Form} {c : Char} {t : Text}

theorem breakUp_nil (form : Form) : breakUp form [] = [] :=
  Mark.replace_nil _ _

theorem breakUp_opener (form : Form) (t : Text) :
    breakUp form (form.sigil :: '{' :: t) =
      form.sigil :: Placeholder.shieldChar :: '{' :: breakUp form t :=
  Mark.replace_ofRest_of_some (Text.after?_eq_some_iff.mpr rfl) _

theorem breakUp_cons (h : c = form.sigil → t.head? ≠ some '{') :
    breakUp form (c :: t) = c :: breakUp form t :=
  Mark.replace_ofRest_of_none (after?_opener_eq_none_iff.mpr h) _

theorem breakUp_cons_of_ne (h : c ≠ form.sigil) (t : Text) :
    breakUp form (c :: t) = c :: breakUp form t :=
  breakUp_cons fun hc => absurd hc h

theorem breakUp_shieldChar_brace (form : Form) (t : Text) :
    breakUp form (Placeholder.shieldChar :: '{' :: t) =
      Placeholder.shieldChar :: '{' :: breakUp form t := by
  have hshield : Placeholder.shieldChar ≠ form.sigil := by cases form <;> decide
  have hbrace : '{' ≠ form.sigil := by cases form <;> decide
  rw [breakUp_cons_of_ne hshield, breakUp_cons_of_ne hbrace]

-- What is written for an opener begins as the opener does.
theorem head?_breakUp (form : Form) (t : Text) : (breakUp form t).head? = t.head? := by
  cases t with
  | nil => rw [breakUp_nil]
  | cons c t =>
    by_cases h : c = form.sigil ∧ t.head? = some '{'
    · obtain ⟨rfl, hbrace⟩ := h
      obtain ⟨behind, rfl⟩ := List.head?_eq_some_iff.mp hbrace
      rw [breakUp_opener]
      rfl
    · rw [breakUp_cons (not_and.mp h)]
      rfl

-- An opener is broken up by the pass for its own form, and the other pass leaves it as it is.
theorem breakUp_breakUp_opener (h : other ≠ form) (broken : Form) (t : Text) :
    breakUp other (breakUp form (broken.sigil :: '{' :: t)) =
      broken.sigil :: Placeholder.shieldChar :: '{' :: breakUp other (breakUp form t) := by
  have hbrace : '{' ≠ form.sigil := by cases form <;> decide
  by_cases hform : broken = form
  · subst hform
    have hsigil : broken.sigil ≠ other.sigil := fun heq => h (sigil_inj.mp heq).symm
    rw [breakUp_opener, breakUp_cons_of_ne hsigil, breakUp_shieldChar_brace]
  · have hother : broken = other := by
      cases broken <;> cases form <;> cases other <;> trivial
    subst hother
    have hsigil : broken.sigil ≠ form.sigil := fun heq => hform (sigil_inj.mp heq)
    rw [breakUp_cons_of_ne hsigil, breakUp_cons_of_ne hbrace, breakUp_opener]

end BreakUp

end Form

namespace Placeholder

-- One pass for each form, in either order: none of them makes an opener for the other.
theorem shield_eq_breakUp_breakUp {form other : Form} (h : other ≠ form) (t : Text) :
    shield t = other.breakUp (form.breakUp t) := by
  fun_induction shield t with
  | case1 => rw [Form.breakUp_nil, Form.breakUp_nil]
  | case2 t ih =>
    rw [ih]
    exact (Form.breakUp_breakUp_opener h .quoted t).symm
  | case3 t ih =>
    rw [ih]
    exact (Form.breakUp_breakUp_opener h .plain t).symm
  | case4 c t hquoted hplain ih =>
    have hopener : ∀ form : Form, c = form.sigil → t.head? ≠ some '{' := by
      intro form hc hhead
      obtain ⟨behind, rfl⟩ := List.head?_eq_some_iff.mp hhead
      cases form with
      | quoted => exact hquoted behind hc rfl
      | plain => exact hplain behind hc rfl
    have hbroken : c = other.sigil → (form.breakUp t).head? ≠ some '{' := by
      rw [Form.head?_breakUp]
      exact hopener other
    rw [Form.breakUp_cons (hopener form), Form.breakUp_cons hbroken, ih]

theorem not_opener_infix_shield (form : Form) (t : Text) : ¬ form.opener <:+: shield t := by
  rintro ⟨before, after, heq⟩
  have hchain := isChain_shield t
  rw [← heq] at hchain
  have hsigil : Form.ofSigil? form.sigil ≠ none := by simp [Form.ofSigil?_sigil]
  have hopener := List.isChain_cons.mp hchain.left_of_append.right_of_append
  exact absurd rfl (hopener.1 '{' rfl hsigil)

-- A text that holds no opener needs no shield.
theorem shield_eq_self_iff {t : Text} :
    shield t = t ↔ ∀ form : Form, ¬ form.opener <:+: t := by
  constructor
  · intro h form
    rw [← h]
    exact not_opener_infix_shield form t
  · intro h
    fun_induction shield t with
    | case1 => rfl
    | case2 t ih => exact absurd (List.prefix_append ['#', '{'] t).isInfix (h .quoted)
    | case3 t ih => exact absurd (List.prefix_append ['$', '{'] t).isInfix (h .plain)
    | case4 c t _ _ ih =>
      rw [ih fun form hform => h form (hform.trans (List.suffix_cons c t).isInfix)]

theorem unshield_append_congr {s s' t t' : Text} (hs : unshield s = unshield s')
    (ht : unshield t = unshield t') : unshield (s ++ t) = unshield (s' ++ t') := by
  rw [unshield_append, unshield_append, hs, ht]

theorem unshield_shield (t : Text) : unshield (shield t) = unshield t := by
  fun_induction shield t with
  | case1 => rfl
  | case2 t ih =>
    have hopener : unshield ['#', shieldChar, '{'] = unshield ['#', '{'] := rfl
    exact unshield_append_congr hopener ih
  | case3 t ih =>
    have hopener : unshield ['$', shieldChar, '{'] = unshield ['$', '{'] := rfl
    exact unshield_append_congr hopener ih
  | case4 c t _ _ ih => exact unshield_append_congr (s := [c]) rfl ih

theorem unshield_eq_self_iff {t : Text} : unshield t = t ↔ shieldChar ∉ t := by
  refine ⟨fun h hm => ?_, unshield_eq_self⟩
  rw [← h] at hm
  exact absurd rfl (bne_iff_ne.mp (List.mem_filter.mp hm).2)

theorem all_shield (t : Text) : mark.all (shield t) = [] := by
  apply (Mark.all_eq_nil_iff leavesEnd_mark).mpr
  intro s hs
  exact read?_eq_none_of_suffix_shield hs

-- A shielded text is inert: it holds no opener, so nothing is found or filled in it. It differs from the
-- text only where an opener was broken up, and without the shield it is the text again, unless the
-- text itself holds the character.
theorem shield_inert (t : Text) :
    shield t = Form.plain.breakUp (Form.quoted.breakUp t) ∧
      (shield t = t ↔ ∀ form : Form, ¬ form.opener <:+: t) ∧
      (unshield (shield t) = t ↔ shieldChar ∉ t) ∧
      (∀ form : Form, ¬ form.opener <:+: shield t) ∧
      names (shield t) = [] ∧ ∀ params, fillAll params (shield t) = shield t := by
  refine ⟨shield_eq_breakUp_breakUp (by decide) t, shield_eq_self_iff, ?_,
    fun form => not_opener_infix_shield form t, ?_, forall_fillAll_eq_iff.mpr (all_shield t)⟩
  · rw [unshield_shield]
    exact unshield_eq_self_iff
  · rw [names, all_shield]
    rfl

-- Sigils in a row: only the last one stands before the brace.
example : shield "##\x7ba\x7d$#\x7b\x7b".toList = "##\ue000\x7ba\x7d$#\ue000\x7b\x7b".toList := by
  decide

end Placeholder

end SqlPreview
