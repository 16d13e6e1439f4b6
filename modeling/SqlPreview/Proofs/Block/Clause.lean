import Mathlib.Data.List.Basic
import SqlPreview.Block.SetClause
import SqlPreview.Block.WhereClause
import SqlPreview.Proofs.Text.Split

namespace SqlPreview

namespace Text

-- Texts that are each written between the same two have the one behind and the one in front between them.
theorem flatMap_around_cons (before after t : Text) (texts : List Text) :
    (t :: texts).flatMap (fun t => before ++ (t ++ after)) =
      before ++ ((after ++ before).intercalate (t :: texts) ++ after) := by
  induction texts generalizing t with
  | nil => simp
  | cons next texts ih =>
    rw [List.flatMap_cons, ih next, List.intercalate_cons_cons]
    simp only [List.append_assoc]

-- Only the ends of a text count for trimming.
theorem trim_append_append_eq_self {s t : Text} (hs : s ≠ []) (ht : t ≠ []) (hstart : trim s = s)
    (hend : trim t = t) (between : Text) : trim (s ++ between ++ t) = s ++ between ++ t := by
  rw [trim_eq_self_iff] at hstart hend ⊢
  refine ⟨fun c hc => hstart.1 c ?_, fun c hc => hend.2 c ?_⟩
  · obtain ⟨d, s, rfl⟩ := List.exists_cons_of_ne_nil hs
    exact hc
  · rwa [List.getLast?_append_of_ne_nil _ ht] at hc

theorem trim_intercalate_eq_self {separator : Text} {texts : List Text}
    (h : ∀ t ∈ texts, t ≠ [] ∧ trim t = t) :
    trim (separator.intercalate texts) = separator.intercalate texts := by
  induction texts with
  | nil => rfl
  | cons t texts ih =>
    rw [List.forall_mem_cons] at h
    cases texts with
    | nil => rw [List.intercalate_singleton, h.1.2]
    | cons next texts =>
      have hne : separator.intercalate (next :: texts) ≠ [] := by
        have hnext := (h.2 next List.mem_cons_self).1
        cases texts <;> simp [hnext]
      rw [List.intercalate_cons_cons]
      exact trim_append_append_eq_self h.1.1 hne h.1.2 (ih h.2) separator

end Text

namespace SetClause

theorem filledLines_append_cons (s t : Text) :
    filledLines (s ++ '\n' :: t) = filledLines s ++ filledLines t := by
  rw [filledLines, List.splitOn_append_cons_self, List.map_append, List.filter_append, filledLines,
    filledLines]

theorem filledLines_append_blank (t : Text) {tail : Text} (h : Text.allBlank tail) :
    filledLines (t ++ tail) = filledLines t := by
  induction tail generalizing t with
  | nil => rw [List.append_nil]
  | cons c tail ih =>
    have htail : Text.allBlank tail := Text.allBlank_iff.mpr fun d hd =>
      Text.allBlank_iff.mp h d (List.mem_cons_of_mem _ hd)
    by_cases hc : c = '\n'
    · have hrest : filledLines tail = [] := ih [] htail
      rw [hc, filledLines_append_cons, hrest, List.append_nil]
    · have hblank : Text.allBlank [c] := Text.allBlank_iff.mpr fun d hd =>
        Text.allBlank_iff.mp h d (List.mem_singleton.mp hd ▸ List.mem_cons_self)
      have hbreak : '\n' ∉ [c] := by simpa using Ne.symm hc
      obtain ⟨before, last, ht, hline⟩ := Text.exists_splitOn_append_right t hbreak
      rw [List.append_cons, ih _ htail, filledLines, hline, filledLines, ht, List.map_append,
        List.map_append, List.map_singleton, List.map_singleton, Text.trim_append_right _ hblank]

-- Texts that each begin a line.
theorem filledLines_flatMap_cons (texts : List Text) :
    filledLines (texts.flatMap ('\n' :: ·)) = texts.flatMap filledLines := by
  have hcons : ∀ t, filledLines ('\n' :: t) = filledLines t := filledLines_append_cons []
  induction texts with
  | nil => rfl
  | cons t texts ih =>
    rw [List.flatMap_cons, List.cons_append, hcons, List.flatMap_cons, ← ih]
    cases texts with
    | nil =>
      have hnil : filledLines [] = [] := rfl
      simp [hnil]
    | cons next texts =>
      rw [List.flatMap_cons, List.cons_append, filledLines_append_cons, hcons]

-- A line that neither begins nor ends with a blank.
theorem filledLines_of_trim {line : Text} (hne : line ≠ []) (htrim : Text.trim line = line)
    (hbreak : '\n' ∉ line) : filledLines line = [line] := by
  rw [filledLines, List.splitOn_eq_singleton hbreak, List.map_singleton, htrim]
  simp [hne]

theorem punctuate_cons (line : Text) {lines : List Text} (h : lines ≠ []) :
    punctuate (line :: lines) = withComma line :: punctuate lines := by
  cases lines with
  | nil => exact absurd rfl h
  | cons next lines => rfl

theorem punctuate_ne_nil {lines : List Text} (h : lines ≠ []) : punctuate lines ≠ [] := by
  match lines with
  | [line] => simp [punctuate]
  | line :: next :: lines => simp [punctuate]

-- Lines that all end with a comma lose the last one.
theorem intercalate_punctuate_commas (lines : List Text) :
    ['\n'].intercalate (punctuate (lines.map (· ++ [',']))) = ",\n".toList.intercalate lines := by
  induction lines with
  | nil => rfl
  | cons line lines ih =>
    by_cases hne : lines = []
    · simp [hne, punctuate, withoutComma]
    · have hcommas : lines.map (· ++ [',']) ≠ [] := by simp [hne]
      have hcomma : withComma (line ++ [',']) = line ++ [','] := by simp [withComma]
      rw [List.map_cons, punctuate_cons _ hcommas, hcomma,
        List.intercalate_cons_of_ne_nil (punctuate_ne_nil hcommas), ih,
        List.intercalate_cons_of_ne_nil hne]
      simp

end SetClause

namespace WhereClause

-- A leading `and` is taken off, with the blank behind it.
theorem ofBody_and {t : Text} (hne : t ≠ []) (htrim : Text.trim t = t) :
    ofBody ("and ".toList ++ (t ++ [' '])) = "WHERE ".toList ++ t := by
  have hbody : Text.trim ("and ".toList ++ (t ++ [' '])) = "and ".toList ++ t := by
    have hand : Text.trim ("and".toList ++ [' '] ++ t) = "and".toList ++ [' '] ++ t :=
      Text.trim_append_append_eq_self (by decide) hne (by decide) htrim [' ']
    rw [← List.append_assoc, Text.trim_append_right _ (by decide)]
    exact hand
  have hrest : Text.trimStart (' ' :: t) = t := by
    obtain ⟨c, t, rfl⟩ := List.exists_cons_of_ne_nil hne
    have hc := (Text.trim_eq_self_iff.mp htrim).1 c rfl
    rw [Text.trimStart, List.dropWhile_cons_of_pos (by decide), List.dropWhile_cons_of_neg (by simp [hc])]
  have hconnective : withoutConnective ("and ".toList ++ t) = Text.trimStart (' ' :: t) := rfl
  rw [ofBody, hbody, hconnective, hrest, if_neg hne]

end WhereClause

end SqlPreview
