import SqlPreview.Proofs.Text.Basic
import SqlPreview.Proofs.Text.Mark
import SqlPreview.Statement.Kind

namespace SqlPreview.Statement

-- A block comment ends at its first end.
theorem afterBlockEnd?_append {t : Text} (h : ¬"*/".toList <:+: t) (rest : Text) :
    afterBlockEnd? (t ++ ("*/".toList ++ rest)) = some rest := by
  induction t with
  | nil => rfl
  | cons c t ih =>
    rw [List.infix_cons_iff, not_or] at h
    rw [List.cons_append, afterBlockEnd?, ih h.2]
    -- an end that begins at the last character of the text needs a slash behind it
    rintro u rfl heq
    cases t with
    | nil => cases heq
    | cons d t =>
      cases heq
      exact h.1 (List.prefix_append ['*', '/'] t)

theorem afterComment?_eq_none {c : Char} (hdash : c ≠ '-') (hslash : c ≠ '/') (t : Text) :
    afterComment? (c :: t) = none := by
  simp [afterComment?, hdash, hslash]

theorem afterComment?_of_isBreak {c : Char} (h : Kind.isBreak c) (t : Text) :
    afterComment? (c :: t) = none := by
  refine afterComment?_eq_none ?_ ?_ t <;> rintro rfl <;> revert h <;> decide

-- The text of a statement in which every comment has become a blank.
def withoutComments (sql : Text) : Text :=
  comment.replace (fun _ => [' ']) sql

theorem withoutComments_of_afterComment? {t rest : Text} (h : afterComment? t = some rest) :
    withoutComments t = ' ' :: withoutComments rest :=
  Mark.replace_ofRest_of_some h _

theorem withoutComments_cons {c : Char} {t : Text} (h : afterComment? (c :: t) = none) :
    withoutComments (c :: t) = c :: withoutComments t :=
  Mark.replace_ofRest_of_none h _

-- No comment begins in a text without the signs that begin one.
theorem withoutComments_append_of_not_mem {s : Text} (hdash : '-' ∉ s) (hslash : '/' ∉ s) (t : Text) :
    withoutComments (s ++ t) = s ++ withoutComments t := by
  refine Mark.replace_append_of_no_mark _ fun c u hu => ?_
  have hc : c ∈ s := hu.subset List.mem_cons_self
  have hnone := afterComment?_eq_none (ne_of_mem_of_not_mem hc hdash) (ne_of_mem_of_not_mem hc hslash)
  rw [comment, Mark.read?_ofRest, hnone, Option.map_none]

namespace Kind

-- The words of a text without comments, in capitals.
def wordsOf (t : Text) : List Text :=
  ((t.splitOnP isBreak).filter (· != [])).map (·.map Char.toUpper)

theorem words_eq (sql : Text) : words sql = wordsOf (withoutComments sql) :=
  rfl

-- Words part at every break.
theorem wordsOf_append_cons {c : Char} (hc : isBreak c) (s t : Text) :
    wordsOf (s ++ c :: t) = wordsOf s ++ wordsOf t := by
  rw [wordsOf, List.splitOnP_append_cons s t hc, List.filter_append, List.map_append, wordsOf, wordsOf]

theorem wordsOf_cons {c : Char} (hc : isBreak c) (t : Text) : wordsOf (c :: t) = wordsOf t :=
  wordsOf_append_cons hc [] t

theorem wordsOf_of_any_isBreak {word : Text} (hne : word ≠ []) (h : word.any isBreak = false) :
    wordsOf word = [word.map Char.toUpper] := by
  have hbreak : ∀ c ∈ word, isBreak c = false := fun c hc =>
    Bool.eq_false_iff.mpr (List.any_eq_false.mp h c hc)
  rw [wordsOf, List.splitOnP_eq_singleton hbreak]
  simp [hne]

-- A break in front of a text belongs to no word.
theorem words_cons {c : Char} (hc : isBreak c) (t : Text) : words (c :: t) = words t := by
  rw [words_eq, withoutComments_cons (afterComment?_of_isBreak hc t), wordsOf_cons hc, words_eq]

-- Neither does a line comment up to its line end.
theorem words_line_append {t : Text} (ht : '\n' ∉ t) (rest : Text) :
    words ("--".toList ++ t ++ '\n' :: rest) = words rest := by
  have hread : afterComment? ("--".toList ++ t ++ '\n' :: rest) = some ('\n' :: rest) := by
    have hdrop : (t ++ '\n' :: rest).dropWhile (· != '\n') = '\n' :: rest :=
      Text.dropWhile_run (fun d hd => Text.ne_of_not_mem ht hd) (by simp)
    simp [afterComment?, hdrop]
  rw [words_eq, withoutComments_of_afterComment? hread, wordsOf_cons (by decide), ← words_eq,
    words_cons (by decide)]

-- Nor does a block comment up to its first end.
theorem words_block_append {t : Text} (ht : ¬"*/".toList <:+: t) (rest : Text) :
    words ("/*".toList ++ t ++ "*/".toList ++ rest) = words rest := by
  have hread : afterComment? ("/*".toList ++ t ++ "*/".toList ++ rest) = some rest := by
    have hend := afterBlockEnd?_append ht rest
    simpa [afterComment?] using hend
  rw [words_eq, withoutComments_of_afterComment? hread, wordsOf_cons (by decide), words_eq]

end Kind

-- A statement that begins with a verb by which its kind is told.
theorem kind?_verb_append {verb : Text} {kind : Kind} {c : Char} (h : (verb, kind) ∈ Kind.ofVerb)
    (hc : Kind.isBreak c) (t : Text) : kind? (verb ++ c :: t) = some kind := by
  have hverbs : ∀ entry ∈ Kind.ofVerb, entry.1 ≠ [] ∧ '-' ∉ entry.1 ∧ '/' ∉ entry.1 ∧
      entry.1.any Kind.isBreak = false ∧ entry.1.map Char.toUpper = entry.1 ∧
      Kind.ofVerb.lookup entry.1 = some entry.2 := by decide +kernel
  obtain ⟨hne, hdash, hslash, hbreak, hupper, hlookup⟩ := hverbs _ h
  rw [kind?, Kind.words_eq, withoutComments_append_of_not_mem hdash hslash,
    withoutComments_cons (afterComment?_of_isBreak hc t), Kind.wordsOf_append_cons hc,
    Kind.wordsOf_of_any_isBreak hne hbreak, hupper, List.singleton_append, Kind.ofWords, hlookup]

-- Complete comments one after another, with signs of some kind between them.
inductive Skipped (sign : Char → Prop) : Text → Prop where
  | nil : Skipped sign []
  | sign (c : Char) (rest : Text) : sign c → Skipped sign rest → Skipped sign (c :: rest)
  | line (t rest : Text) : '\n' ∉ t → Skipped sign rest →
      Skipped sign ("--".toList ++ t ++ '\n' :: rest)
  | block (t rest : Text) : ¬"*/".toList <:+: t → Skipped sign rest →
      Skipped sign ("/*".toList ++ t ++ "*/".toList ++ rest)

-- Comments with nothing between them.
abbrev Comments : Text → Prop :=
  Skipped fun _ => False

-- There are no words in comments, nor in breaks.
theorem Skipped.words_append {sign : Char → Prop} {c : Text} (h : Skipped sign c)
    (hsign : ∀ d, sign d → Kind.isBreak d) (sql : Text) : Kind.words (c ++ sql) = Kind.words sql := by
  induction h with
  | nil => rfl
  | sign d rest hd _ ih => rw [List.cons_append, Kind.words_cons (hsign d hd), ih]
  | line t rest ht _ ih => rw [List.append_assoc, List.cons_append, Kind.words_line_append ht, ih]
  | block t rest ht _ ih => rw [List.append_assoc, Kind.words_block_append ht, ih]

theorem Skipped.kind?_append {sign : Char → Prop} {c : Text} (h : Skipped sign c)
    (hsign : ∀ d, sign d → Kind.isBreak d) (sql : Text) : kind? (c ++ sql) = kind? sql := by
  rw [kind?, h.words_append hsign, kind?]

-- A comment ends with a character that belongs to no word.
theorem Comments.isWord_getLast? {c : Text} (h : Comments c) :
    ∀ d ∈ c.getLast?, Text.isWord d = false := by
  have hlast : ∀ {s rest : Text} {e : Char}, Text.isWord e = false →
      (∀ d ∈ rest.getLast?, Text.isWord d = false) →
        ∀ d ∈ (s ++ e :: rest).getLast?, Text.isWord d = false := by
    intro s rest e he hrest d hd
    rw [List.getLast?_append_of_ne_nil _ (by simp), List.getLast?_cons] at hd
    cases hr : rest.getLast? with
    | none =>
      rw [hr] at hd
      cases hd
      exact he
    | some last =>
      rw [hr] at hd
      cases hd
      exact hrest _ hr
  induction h with
  | nil => simp
  | sign _ _ hd => cases hd
  | line t rest _ _ ih => exact hlast (by decide) ih
  | block t rest _ _ ih =>
    have hsplit : "/*".toList ++ t ++ "*/".toList ++ rest = ("/*".toList ++ t ++ ['*']) ++ '/' :: rest := by
      simp
    rw [hsplit]
    exact hlast (by decide) ih

end SqlPreview.Statement
