import SqlPreview.Proofs.Text.Mark
import SqlPreview.Proofs.Text.Basic
import SqlPreview.Template.Tag

namespace SqlPreview

namespace Loop

-- The blanks before the first attribute say nothing.
theorem Attribute.all_dropWhile_isBlank (t : Text) :
    Attribute.mark.all (t.dropWhile Text.isBlank) = Attribute.mark.all t := by
  induction t with
  | nil => rfl
  | cons c t ih =>
    cases hc : Text.isBlank c with
    | false => rw [List.dropWhile_cons_of_neg (by simp [hc])]
    | true =>
      have hword : Text.isWord c = false := Text.isWord_of_isBlank hc
      have hread : Attribute.mark.read? (c :: t) = none := by
        simp [Attribute.mark, Attribute.read?, hword]
      rw [List.dropWhile_cons_of_pos hc, ih, Mark.all_cons hread]

theorem Header.read_dropWhile_isBlank (t : Text) :
    Header.read (t.dropWhile Text.isBlank) = Header.read t := by
  rw [Header.read, Header.read, Attribute.all_dropWhile_isBlank]

end Loop

-- How the opening tag of a block is written.
def Block.Head.OpenedBy (head : Block.Head) (tag : Text) : Prop :=
  match head with
  | .conditional test =>
    ∃ blanks, blanks ≠ [] ∧ Text.allBlank blanks ∧ test ≠ [] ∧ '"' ∉ test ∧
      tag = "<if".toList ++ (blanks ++ ("test=\x22".toList ++ (test ++ "\x22>".toList)))
  | .loop header =>
    ∃ name blanks attributes, Text.spells "<foreach".toList name ∧ blanks ≠ [] ∧
      Text.allBlank blanks ∧ '>' ∉ attributes ∧ header = Loop.Header.read attributes ∧
      tag = name ++ (blanks ++ (attributes ++ ['>']))
  | .setClause => tag = "<set>".toList
  | .whereClause => tag = "<where>".toList

-- How the closing tag of a block is written.
def Block.Kind.ClosedBy (kind : Block.Kind) (tag : Text) : Prop :=
  match kind with
  | .conditional => tag = "</if>".toList
  | .loop => Text.spells "</foreach>".toList tag
  | .setClause => tag = "</set>".toList
  | .whereClause => tag = "</where>".toList

namespace Tag

-- Letters are folded to small letters; every other character is left alone.
theorem foldCase_eq_or_isLower (c : Char) : Text.foldCase c = c ∨ (Text.foldCase c).isLower := by
  unfold Text.foldCase
  split
  · exact .inr (by decide)
  · split
    · exact .inr (by decide)
    · unfold Char.toLower
      split
      · next h =>
        refine .inr ?_
        have hlow := UInt32.le_iff_toNat_le.mp h.1
        have hhigh := UInt32.le_iff_toNat_le.mp h.2
        refine Bool.and_eq_true_iff.mpr ⟨decide_eq_true ?_, decide_eq_true ?_⟩ <;>
          simp [UInt32.le_iff_toNat_le] at hlow hhigh ⊢ <;> omega
      · exact .inl rfl

theorem eq_or_eq_of_foldCase {c : Char} (h : Text.foldCase c = 'f') : c = 'f' ∨ c = 'F' := by
  unfold Text.foldCase at h
  split at h
  · exact absurd h (by decide)
  · split at h
    · exact absurd h (by decide)
    · unfold Char.toLower at h
      split at h
      · next hu =>
        refine .inr (Char.ext (UInt32.toNat_inj.mp ?_))
        have hval := congrArg (fun d : Char => d.val.toNat) h
        have hhigh := UInt32.le_iff_toNat_le.mp hu.2
        simp at hval hhigh ⊢
        omega
      · exact .inl h

-- A word that begins with a bracket is written with this bracket.
theorem exists_of_spells_tag {letter : Char} {word name : Text}
    (h : Text.spells ('<' :: letter :: word) name) :
    ∃ c t, name = '<' :: c :: t ∧ Text.foldCase c = letter := by
  match name with
  | [] => simp [Text.spells] at h
  | [a] => simp [Text.spells] at h
  | a :: c :: t =>
    simp only [Text.spells, List.map_cons, List.cons_beq_cons, Bool.and_eq_true, beq_iff_eq] at h
    obtain ⟨ha, hc, -⟩ := h
    rcases foldCase_eq_or_isLower a with he | he
    · exact ⟨c, t, by rw [← ha, he], hc⟩
    · rw [ha] at he
      exact absurd he (by decide)

-- A tag whose text is written as its part demands.
def Written (tag : Tag) : Prop :=
  match tag.role with
  | .opens head => head.OpenedBy tag.text
  | .closes kind => kind.ClosedBy tag.text

theorem splitWord?_append {word name : Text} (h : Text.spells word name) (rest : Text) :
    Text.splitWord? word (name ++ rest) = some (name, rest) := by
  have hlen : word.length = name.length := by
    rw [← eq_of_beq h, List.length_map]
  simp [Text.splitWord?, hlen, h]

theorem spells_of_splitWord? {word t name rest : Text}
    (h : Text.splitWord? word t = some (name, rest)) : Text.spells word name := by
  simp only [Text.splitWord?] at h
  split at h
  · cases h
    assumption
  · cases h

theorem readConditional?_written {blanks test : Text} (hne : blanks ≠ []) (hb : Text.allBlank blanks)
    (ht : test ≠ []) (hq : '"' ∉ test) (rest : Text) :
    readConditional?
        ("<if".toList ++ (blanks ++ ("test=\x22".toList ++ (test ++ ("\x22>".toList ++ rest))))) =
      some (⟨"<if".toList ++ (blanks ++ ("test=\x22".toList ++ (test ++ "\x22>".toList))),
        .opens (.conditional test)⟩, rest) := by
  have hblanks := Text.allBlank_iff.mp hb
  have hquote : ∀ c ∈ test, (c != '"') = true := fun c hc => Text.ne_of_not_mem hq hc
  have hname : ∀ c ∈ ("test=\x22".toList ++ (test ++ ("\x22>".toList ++ rest))).head?,
      Text.isBlank c = false := by
    rintro c ⟨⟩
    decide
  have hend : ∀ c ∈ ("\x22>".toList ++ rest).head?, (c != '"') = false := by
    rintro c ⟨⟩
    decide
  simp only [readConditional?, Option.bind_eq_bind]
  rw [Text.after?_eq_some_iff.mpr rfl, Option.bind_some,
    Text.takeWhile_run hblanks hname, Text.dropWhile_run hblanks hname,
    Text.after?_eq_some_iff.mpr rfl, Option.bind_some,
    Text.takeWhile_run hquote hend, Text.dropWhile_run hquote hend,
    Text.after?_eq_some_iff.mpr rfl, Option.bind_some, if_neg (by simp [hne, ht])]

theorem readLoop?_written {name blanks attributes : Text} (hn : Text.spells "<foreach".toList name)
    (hne : blanks ≠ []) (hb : Text.allBlank blanks) (ha : '>' ∉ attributes) (rest : Text) :
    readLoop? (name ++ (blanks ++ (attributes ++ '>' :: rest))) =
      some (⟨name ++ (blanks ++ (attributes ++ ['>'])),
        .opens (.loop (Loop.Header.read attributes))⟩, rest) := by
  -- the blanks at the front of the attributes are read as blanks behind the name
  let more := attributes.takeWhile Text.isBlank
  let first := attributes.dropWhile Text.isBlank
  have hsplit : more ++ first = attributes := List.takeWhile_append_dropWhile
  have hblanks : ∀ c ∈ blanks ++ more, Text.isBlank c = true := by
    intro c hc
    rcases List.mem_append.mp hc with hc | hc
    · exact Text.allBlank_iff.mp hb c hc
    · exact (List.all_eq_true.mp List.all_takeWhile) c hc
  have hfirst : ∀ c ∈ (first ++ '>' :: rest).head?, Text.isBlank c = false := by
    have hhead := List.head?_dropWhile_not Text.isBlank attributes
    cases hf : attributes.dropWhile Text.isBlank with
    | nil =>
      simp only [first, hf, List.nil_append, List.head?_cons, Option.mem_some_iff]
      rintro c rfl
      decide
    | cons c t =>
      rw [hf] at hhead
      simpa [first, hf] using hhead
  have hend : ∀ c ∈ first, (c != '>') = true := fun c hc =>
    Text.ne_of_not_mem ha ((List.dropWhile_suffix _).subset hc)
  have hgt : ∀ c ∈ ('>' :: rest).head?, (c != '>') = false := by
    rintro c ⟨⟩
    decide
  have htext : ∀ behind, blanks ++ (attributes ++ behind) = (blanks ++ more) ++ (first ++ behind) := by
    intro behind
    rw [← hsplit]
    simp only [List.append_assoc]
  have hafter : Text.after? ['>'] ('>' :: rest) = some rest := Text.after?_eq_some_iff.mpr rfl
  simp only [readLoop?, Option.bind_eq_bind]
  rw [splitWord?_append hn, Option.bind_some, htext, Text.takeWhile_run hblanks hfirst,
    Text.dropWhile_run hblanks hfirst, Text.takeWhile_run hend hgt, Text.dropWhile_run hend hgt,
    hafter, Option.bind_some, if_neg (by simp [hne]),
    Loop.Header.read_dropWhile_isBlank, htext ['>']]

theorem read?_fixed {tag : Tag} (h : tag ∈ fixed) (rest : Text) :
    read? (tag.text ++ rest) = some (tag, rest) := by
  simp only [fixed, List.mem_cons, List.not_mem_nil, or_false] at h
  rcases h with rfl | rfl | rfl | rfl | rfl <;> rfl

-- Behind the opening bracket the first letter tells a conditional from a loop.
theorem readConditional?_eq_none {c : Char} (hc : c ≠ 'i') (t : Text) :
    readConditional? ('<' :: c :: t) = none := by
  have hafter : Text.after? "<if".toList ('<' :: c :: t) = none := by simp [Text.after?, hc]
  rw [readConditional?, hafter]
  rfl

theorem readLoop?_eq_none {c : Char} (hc : Text.foldCase c ≠ 'f') (t : Text) :
    readLoop? ('<' :: c :: t) = none := by
  simp [readLoop?, Text.splitWord?, Text.spells, hc]

-- What is written as a tag is read as this tag, whatever stands behind it.
theorem read?_append {tag : Tag} (h : tag.Written) (rest : Text) :
    read? (tag.text ++ rest) = some (tag, rest) := by
  obtain ⟨text, role⟩ := tag
  cases role with
  | opens head =>
    cases head with
    | conditional test =>
      obtain ⟨blanks, hne, hb, ht, hq, rfl⟩ := h
      have hread := readConditional?_written hne hb ht hq rest
      simp only [List.append_assoc]
      exact congrArg (· <|> _) hread
    | loop header =>
      obtain ⟨name, blanks, attributes, hn, hne, hb, ha, rfl, rfl⟩ := h
      have hread := readLoop?_written hn hne hb ha rest
      obtain ⟨c, t, rfl, hc⟩ := exists_of_spells_tag hn
      have hi : c ≠ 'i' := by
        rintro rfl
        exact absurd hc (by decide)
      simp only [List.append_assoc, List.cons_append, List.nil_append] at hread ⊢
      rw [read?, hread, readConditional?_eq_none hi]
      rfl
    | setClause =>
      obtain rfl : text = "<set>".toList := h
      exact read?_fixed (by decide) rest
    | whereClause =>
      obtain rfl : text = "<where>".toList := h
      exact read?_fixed (by decide) rest
  | closes kind =>
    cases kind with
    | conditional =>
      obtain rfl : text = "</if>".toList := h
      exact read?_fixed (by decide) rest
    | loop =>
      have hread : readLoopEnd? (text ++ rest) = some (⟨text, .closes .loop⟩, rest) := by
        rw [readLoopEnd?, splitWord?_append h]
        rfl
      obtain ⟨c, t, rfl, hc⟩ := exists_of_spells_tag h
      have hi : c ≠ 'i' := by
        rintro rfl
        exact absurd hc (by decide)
      have hf : Text.foldCase c ≠ 'f' := by
        rw [hc]
        decide
      simp only [List.cons_append] at hread ⊢
      rw [read?, hread, readConditional?_eq_none hi, readLoop?_eq_none hf]
      rfl
    | setClause =>
      obtain rfl : text = "</set>".toList := h
      exact read?_fixed (by decide) rest
    | whereClause =>
      obtain rfl : text = "</where>".toList := h
      exact read?_fixed (by decide) rest

theorem written_of_readConditional? {t rest : Text} {tag : Tag}
    (h : readConditional? t = some (tag, rest)) : tag.Written := by
  simp only [readConditional?, Option.bind_eq_bind, Option.bind_eq_some_iff] at h
  obtain ⟨named, -, quoted, -, rest', -, h⟩ := h
  split at h
  · cases h
  · next hne =>
    cases h
    rw [not_or] at hne
    refine ⟨_, hne.1, List.all_takeWhile, hne.2, fun hq => ?_, rfl⟩
    have hall := List.all_eq_true.mp List.all_takeWhile '"' hq
    simp at hall

theorem written_of_readLoop? {t rest : Text} {tag : Tag} (h : readLoop? t = some (tag, rest)) :
    tag.Written := by
  simp only [readLoop?, Option.bind_eq_bind, Option.bind_eq_some_iff, Prod.exists] at h
  obtain ⟨name, named, hn, rest', -, h⟩ := h
  split at h
  · cases h
  · next hne =>
    cases h
    refine ⟨name, _, _, spells_of_splitWord? hn, hne, List.all_takeWhile, fun hq => ?_, rfl, rfl⟩
    have hall := List.all_eq_true.mp List.all_takeWhile '>' hq
    simp at hall

-- What is read as a tag is written as this tag.
theorem written_of_read? {t rest : Text} {tag : Tag} (h : read? t = some (tag, rest)) :
    tag.Written := by
  unfold read? at h
  split at h
  · simp only [Option.orElse_eq_orElse, Option.orElse_eq_or, Option.or_eq_some_iff] at h
    rcases h with h | ⟨_, h | ⟨_, h | ⟨_, h⟩⟩⟩
    · exact written_of_readConditional? h
    · exact written_of_readLoop? h
    · simp only [readLoopEnd?, Option.map_eq_some_iff, Prod.exists, Prod.mk.injEq] at h
      obtain ⟨name, rest', hn, rfl, rfl⟩ := h
      exact spells_of_splitWord? hn
    · simp only [readFixed?, List.findSome?_eq_some_iff, Option.map_eq_some_iff, Prod.mk.injEq] at h
      obtain ⟨_, found, _, hl, ⟨_, _, rfl, -⟩, -⟩ := h
      have hm : found ∈ fixed := by simp [hl]
      simp only [fixed, List.mem_cons, List.not_mem_nil, or_false] at hm
      rcases hm with rfl | rfl | rfl | rfl | rfl <;> rfl
  · cases h

theorem leavesEnd_mark : mark.LeavesEnd := by
  intro t tag rest h
  exact ⟨tag.text, (append_of_read? h).1⟩

-- Every tag that is found in a text is written as this tag.
theorem written_of_mem_all {t : Text} {tag : Tag} (h : tag ∈ mark.all t) : tag.Written := by
  obtain ⟨_, _, _, hr⟩ := Mark.exists_read?_of_mem_all leavesEnd_mark h
  exact written_of_read? hr

-- The characters behind a bracket that may begin a tag.
def startChars : List Char :=
  ['/', 'i', 's', 'w', 'f', 'F']

theorem read?_eq_none {c : Char} (hc : c ∉ startChars) (t : Text) :
    read? ('<' :: c :: t) = none := by
  simp only [startChars, List.mem_cons, List.not_mem_nil, or_false, not_or] at hc
  obtain ⟨hslash, hi, hs, hw, hf, hF⟩ := hc
  have hloop : Text.foldCase c ≠ 'f' := fun h => (eq_or_eq_of_foldCase h).elim hf hF
  have hend : Text.foldCase c ≠ '/' := by
    rcases foldCase_eq_or_isLower c with he | he
    · rwa [he]
    · intro h
      rw [h] at he
      exact absurd he (by decide)
  have hloopEnd : readLoopEnd? ('<' :: c :: t) = none := by
    simp [readLoopEnd?, Text.splitWord?, Text.spells, hend]
  have hfixed : readFixed? ('<' :: c :: t) = none := by
    simp [readFixed?, fixed, Text.after?, hslash, hs, hw]
  rw [read?, readConditional?_eq_none hi, readLoop?_eq_none hloop, hloopEnd, hfixed]
  rfl

theorem read?_eq_none_of_ne {c : Char} (hc : c ≠ '<') (t : Text) : read? (c :: t) = none := by
  unfold read?
  split
  · next h =>
    cases h
    exact absurd rfl hc
  · rfl

-- In a calm text no tag begins, whatever follows the text: behind every bracket stands, in the text
-- itself, a character that no tag has there.
def isCalm : Text → Bool
  | [] => true
  | c :: t => (c != '<' || t.head?.any fun next => !startChars.contains next) && isCalm t

theorem isCalm_of_not_mem {t : Text} (h : '<' ∉ t) : isCalm t := by
  induction t with
  | nil => rfl
  | cons c t ih =>
    rw [List.mem_cons, not_or] at h
    simp [isCalm, ih h.2, Ne.symm h.1]

theorem read?_calm {c : Char} {t : Text} (h : isCalm (c :: t)) (rest : Text) :
    read? (c :: (t ++ rest)) = none := by
  simp only [isCalm, Bool.and_eq_true, Bool.or_eq_true, bne_iff_ne] at h
  rcases h.1 with hc | hnext
  · exact read?_eq_none_of_ne hc _
  · cases t with
    | nil => simp at hnext
    | cons d t =>
      by_cases hc : c = '<'
      · subst hc
        exact read?_eq_none (by simpa using hnext) _
      · exact read?_eq_none_of_ne hc _

theorem isCalm_of_suffix {s t : Text} (h : s <:+ t) (ht : isCalm t) : isCalm s := by
  obtain ⟨front, rfl⟩ := h
  induction front with
  | nil => exact ht
  | cons c front ih =>
    simp only [List.cons_append, isCalm, Bool.and_eq_true] at ht
    exact ih ht.2

-- A calm text is passed over.
theorem scan_calm_append {t : Text} (h : isCalm t) (rest : Text) :
    mark.scan (t ++ rest) = t.map .char ++ mark.scan rest :=
  Mark.scan_append_of_no_mark fun _ _ hs => read?_calm (isCalm_of_suffix hs h) rest

end Tag

end SqlPreview
