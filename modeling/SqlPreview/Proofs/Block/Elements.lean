import Mathlib.Data.List.DropRight
import SqlPreview.Proofs.Parameter.Element

namespace SqlPreview.Loop

-- What stands between the commas of a text, without the blanks around.
def segments (t : Text) : List Text :=
  (t.splitOn ',').map Text.trim

theorem elements_text (t : Text) :
    elements (some (.text t)) = ((segments t).rdropWhile (· == [])).map .text :=
  textElements_eq t

-- Taken off the end of a row are its empty texts, all that stand there and nothing else.
theorem exists_append_replicate (texts : List Text) :
    ∃ count, texts = texts.rdropWhile (· == []) ++ List.replicate count [] := by
  have hempty : ∀ t ∈ texts.rtakeWhile (· == []), t = [] := fun t ht =>
    eq_of_beq (List.mem_rtakeWhile_imp (p := (· == [])) ht)
  refine ⟨(texts.rtakeWhile (· == [])).length, ?_⟩
  rw [← List.eq_replicate_iff.mpr ⟨rfl, hempty⟩]
  exact List.rdropWhile_append_rtakeWhile.symm

theorem getLast?_rdropWhile_ne (texts : List Text) : (texts.rdropWhile (· == [])).getLast? ≠ some [] := by
  intro h
  have hne : texts.rdropWhile (· == []) ≠ [] := by
    intro hnil
    rw [hnil] at h
    cases h
  have hlast := List.rdropWhile_last_not (· == []) texts hne
  rw [List.getLast?_eq_some_getLast hne, Option.some_inj] at h
  exact hlast (beq_iff_eq.mpr h)

theorem rdropWhile_append_replicate {kept : List Text} (h : kept.getLast? ≠ some []) (count : Nat) :
    (kept ++ List.replicate count []).rdropWhile (· == []) = kept := by
  induction count with
  | zero =>
    rw [List.replicate_zero, List.append_nil, List.rdropWhile_eq_self_iff]
    intro hne hlast
    rw [List.getLast?_eq_some_getLast hne] at h
    exact h (congrArg some (eq_of_beq hlast))
  | succ count ih =>
    rw [List.replicate_succ', ← List.append_assoc, List.rdropWhile_concat_pos _ _ _ (by rfl), ih]

-- A text without commas as it may stand in a row, with blanks around it.
structure Segment where
  lead : Text
  text : Text
  tail : Text
  allBlank_lead : Text.allBlank lead
  comma_not_mem : ',' ∉ text
  allBlank_tail : Text.allBlank tail

namespace Segment

def written (segment : Segment) : Text :=
  segment.lead ++ (segment.text ++ segment.tail)

theorem trim_written (segment : Segment) : Text.trim segment.written = Text.trim segment.text := by
  rw [written, Text.trim_append_left segment.allBlank_lead,
    Text.trim_append_right _ segment.allBlank_tail]

theorem comma_not_mem_written (segment : Segment) : ',' ∉ segment.written := by
  have hblank : Text.isBlank ',' = false := by decide
  rw [written, List.mem_append, List.mem_append, not_or, not_or]
  exact ⟨Text.not_mem_of_allBlank hblank segment.allBlank_lead, segment.comma_not_mem,
    Text.not_mem_of_allBlank hblank segment.allBlank_tail⟩

end Segment

-- What a row is written to has its members, trimmed, as segments, and an empty one for each blank text
-- behind them.
theorem segments_row (row : List Segment) {blanks : List Text}
    (hblanks : ∀ blank ∈ blanks, Text.allBlank blank) (hne : row.map Segment.written ++ blanks ≠ []) :
    segments ([','].intercalate (row.map Segment.written ++ blanks)) =
      (row.map fun segment => Text.trim segment.text) ++ List.replicate blanks.length [] := by
  have hcomma : ∀ t ∈ row.map Segment.written ++ blanks, ',' ∉ t := by
    intro t ht
    rcases List.mem_append.mp ht with ht | ht
    · obtain ⟨segment, -, rfl⟩ := List.mem_map.mp ht
      exact segment.comma_not_mem_written
    · exact Text.not_mem_of_allBlank (by decide) (hblanks t ht)
  have hempty : blanks.map Text.trim = List.replicate blanks.length [] := by
    rw [List.eq_replicate_iff, List.length_map, List.forall_mem_map]
    exact ⟨rfl, fun blank hb => Text.trim_eq_nil_iff.mpr (hblanks blank hb)⟩
  rw [segments, List.splitOn_intercalate ',' hcomma hne, List.map_append, hempty, List.map_map]
  congr 1
  exact List.map_congr_left fun segment _ => segment.trim_written

-- The elements of a text are its segments up to the empty ones at the end. So a row of texts without
-- commas, the last of them not blank, is found again, trimmed, in any text that it is written to with
-- blanks around its members and with blank segments behind them.
theorem elements_text_apart :
    (∀ t, ∃ kept count, segments t = kept ++ List.replicate count [] ∧ kept.getLast? ≠ some [] ∧
        elements (some (.text t)) = kept.map .text) ∧
      ∀ (row : List Segment) (blanks : List Text),
        (∀ last ∈ row.getLast?, Text.allBlank last.text = false) →
        (∀ blank ∈ blanks, Text.allBlank blank) →
          elements (some (.text ([','].intercalate (row.map Segment.written ++ blanks)))) =
            row.map fun segment => .text (Text.trim segment.text) := by
  refine ⟨fun t => ?_, fun row blanks hlast hblanks => ?_⟩
  · obtain ⟨count, hcount⟩ := exists_append_replicate (segments t)
    exact ⟨_, count, hcount, getLast?_rdropWhile_ne _, elements_text t⟩
  · by_cases hne : row.map Segment.written ++ blanks = []
    · obtain ⟨hrow, -⟩ := List.append_eq_nil_iff.mp hne
      rw [hne, List.map_eq_nil_iff.mp hrow]
      rfl
    · have hend : (row.map fun segment => Text.trim segment.text).getLast? ≠ some [] := by
        rw [List.getLast?_map, Ne, Option.map_eq_some_iff]
        rintro ⟨last, hl, htrim⟩
        rw [Text.trim_eq_nil_iff, hlast last hl] at htrim
        cases htrim
      rw [elements_text, segments_row row hblanks hne, rdropWhile_append_replicate hend, List.map_map]
      rfl

-- An empty segment between others is an element, and blanks that are no spaces are trimmed too.
theorem elements_text_apart_inner :
    let first : Segment := ⟨" ".toList, "a b".toList, "\t".toList, by decide, by decide, by decide⟩
    let second : Segment := ⟨[], [], " ".toList, by decide, by decide, by decide⟩
    let third : Segment := ⟨"\u2003".toList, " c".toList, [], by decide, by decide, by decide⟩
    let row := [first, second, third]
    let blanks := ["\n".toList, []]
    (∀ last ∈ row.getLast?, Text.allBlank last.text = false) ∧ (∀ blank ∈ blanks, Text.allBlank blank) ∧
      [','].intercalate (row.map Segment.written ++ blanks) = " a b\t, ,\u2003 c,\n,".toList ∧
      elements (some (.text " a b\t, ,\u2003 c,\n,".toList)) =
        [.text "a b".toList, .text [], .text "c".toList] := by
  intro first second third row blanks
  have hlast : ∀ last ∈ row.getLast?, Text.allBlank last.text = false := by
    intro last hl
    cases hl
    decide
  have hblanks : ∀ blank ∈ blanks, Text.allBlank blank := by decide
  have hjoin : [','].intercalate (row.map Segment.written ++ blanks) = " a b\t, ,\u2003 c,\n,".toList := by
    decide
  refine ⟨hlast, hblanks, hjoin, ?_⟩
  rw [← hjoin, elements_text_apart.2 row blanks hlast hblanks]
  rfl

end SqlPreview.Loop
