import Mathlib.Data.List.Infix
import SqlPreview.Proofs.Statement.Kind
import SqlPreview.Proofs.Text.Word
import SqlPreview.Statement.Finding

namespace SqlPreview.Statement

-- Of the kinds only two ask for the word `where`.
theorem kindFindings_eq_iff {kind : Kind} {filtered filtered' : Bool} :
    kindFindings filtered kind = kindFindings filtered' kind ↔
      (kind = .delete ∨ kind = .update → filtered = filtered') := by
  cases kind <;> revert filtered filtered' <;> decide

-- The tag that a finding reports.
def Finding.tag? : Finding → Option Text
  | markupLeft tag => some tag
  | _ => none

theorem findings_of_kind? {sql : Text} {kind : Kind} (h : kind? sql = some kind) :
    findings sql = kindFindings (Text.hasWord "where".toList sql) kind ++
      ((tagMark.all sql).head?.map Finding.markupLeft).toList := by
  rw [findings, h]

theorem head?_tags_findings {sql : Text} {kind : Kind} (h : kind? sql = some kind) :
    ((findings sql).filterMap Finding.tag?).head? = (tagMark.all sql).head? := by
  have hkind : ∀ filtered, (kindFindings filtered kind).filterMap Finding.tag? = [] := by
    cases kind <;> decide
  rw [findings_of_kind? h, List.filterMap_append, hkind, List.nil_append]
  cases (tagMark.all sql).head? <;> rfl

-- Of two statements of the same kind.
theorem findings_eq_iff {s t : Text} {kind : Kind} (hs : kind? s = some kind)
    (ht : kind? t = some kind) :
    findings s = findings t ↔
      (kind = .delete ∨ kind = .update →
          Text.hasWord "where".toList s = Text.hasWord "where".toList t) ∧
        (tagMark.all s).head? = (tagMark.all t).head? := by
  rw [← kindFindings_eq_iff]
  constructor
  · intro h
    have htags := congrArg (fun list => (list.filterMap Finding.tag?).head?) h
    simp only [head?_tags_findings hs, head?_tags_findings ht] at htags
    rw [findings_of_kind? hs, findings_of_kind? ht, htags] at h
    exact ⟨List.append_cancel_right h, htags⟩
  · rintro ⟨hkind, htags⟩
    rw [findings_of_kind? hs, findings_of_kind? ht, hkind, htags]

-- A DELETE is reported if the word `where` is not found in it.
theorem code_deleteAll_mem_iff {sql : Text} (h : kind? sql = some .delete) :
    Finding.deleteAll.code ∈ (findings sql).map Finding.code ↔
      Text.hasWord "where".toList sql = false := by
  have hcodes : "W004".toList ≠ "E002".toList := by decide
  have hmarkup : ∀ tag, (Finding.markupLeft tag).code ≠ Finding.deleteAll.code := fun _ => hcodes
  rw [findings_of_kind? h, kindFindings]
  cases Text.hasWord "where".toList sql <;> simp [hmarkup]

-- A tag that is left is reported, whatever else is.
theorem code_markupLeft_mem_iff {sql : Text} {kind : Kind} (h : kind? sql = some kind) :
    "W004".toList ∈ (findings sql).map Finding.code ↔ tagMark.all sql ≠ [] := by
  have hkind : ∀ filtered, "W004".toList ∉ (kindFindings filtered kind).map Finding.code := by
    cases kind <;> decide
  rw [findings_of_kind? h, List.map_append, List.mem_append, or_iff_right (hkind _)]
  cases tagMark.all sql with
  | nil => simp
  | cons tag tags => exact iff_of_true List.mem_cons_self (List.cons_ne_nil tag tags)

section Comments

variable {c : Text} (hc : Comments c) (sql : Text)
include hc

theorem Comments.hasWord_append :
    Text.hasWord "where".toList (c ++ sql) =
      (Text.hasWord "where".toList c || Text.hasWord "where".toList sql) :=
  Text.hasWord_append_of_getLast? (by decide) hc.isWord_getLast? sql

-- Comments in front of a statement change its findings only if they hold the word `where`, which then is
-- found in a DELETE or an UPDATE that does not hold it, or if another tag is the first one.
theorem findings_comments_append :
    kind? (c ++ sql) = kind? sql ∧
      (findings (c ++ sql) = findings sql ↔
        kind? sql = none ∨
          ¬((kind? sql = some .delete ∨ kind? sql = some .update) ∧
              Text.hasWord "where".toList c ∧ Text.hasWord "where".toList sql = false) ∧
            (tagMark.all (c ++ sql)).head? = (tagMark.all sql).head?) ∧
      ((∀ s, s <:+ c → s ≠ [] → readTag? (s ++ sql) = none) →
        (tagMark.all (c ++ sql)).head? = (tagMark.all sql).head?) := by
  have hkind := hc.kind?_append (fun _ => False.elim) sql
  refine ⟨hkind, ?_, fun htags => ?_⟩
  · cases h : kind? sql with
    | none =>
      rw [h] at hkind
      simp [findings, h, hkind]
    | some kind =>
      rw [h] at hkind
      rw [findings_eq_iff hkind h, hc.hasWord_append]
      simp only [Option.some.injEq, reduceCtorEq, false_or]
      refine and_congr_left' ?_
      cases Text.hasWord "where".toList c <;> cases Text.hasWord "where".toList sql <;> simp
  · have hall : tagMark.all (c ++ sql) = tagMark.all sql :=
      Mark.all_append_of_no_mark fun d s hs => htags (d :: s) hs (by simp)
    rw [hall]

end Comments

-- The comments hold the word `where`, as the statement does, and a bracket at which no tag begins.
theorem findings_comments_append_filtered :
    let c := "--".toList ++ " where a < b".toList ++ '\n' :: ("/*".toList ++ "* 1".toList ++ "*/".toList ++ [])
    let sql := "UPDATE t SET a = 1 WHERE b > 0 </set>".toList
    Comments c ∧ (∀ s ∈ c.tails, s ≠ [] → readTag? (s ++ sql) = none) ∧
      findings sql = [.markupLeft "</set>".toList] ∧ findings (c ++ sql) = findings sql := by
  intro c sql
  have hc : Comments c := .line _ _ (by decide) (.block _ _ (by decide) .nil)
  have htags : ∀ s ∈ c.tails, s ≠ [] → readTag? (s ++ sql) = none := by decide +kernel
  obtain ⟨-, hiff, hhead⟩ := findings_comments_append hc sql
  have hfirst := hhead fun s hs => htags s ((List.mem_tails s c).mpr hs)
  exact ⟨hc, htags, by decide +kernel, hiff.mpr (.inr ⟨by decide +kernel, hfirst⟩)⟩

-- A comment hides that a statement deletes everything.
theorem findings_comments_append_hidden :
    let c := "--".toList ++ " where".toList ++ ['\n']
    let sql := "DELETE FROM users".toList
    Comments c ∧ tagMark.all c = [] ∧ findings sql = [.deleteAll] ∧ findings (c ++ sql) = [] := by
  intro c sql
  exact ⟨.line _ _ (by decide) .nil, by decide +kernel⟩

end SqlPreview.Statement
