import SqlPreview.Block.Head

namespace SqlPreview

inductive Role where
  | opens (head : Block.Head)
  | closes (kind : Block.Kind)
deriving DecidableEq, Repr

structure Tag where
  text : Text
  role : Role
deriving DecidableEq, Repr

namespace Tag

-- The tags that are written in one way only.
def fixed : List Tag :=
  [⟨"</if>".toList, .closes .conditional⟩,
    ⟨"<set>".toList, .opens .setClause⟩,
    ⟨"</set>".toList, .closes .setClause⟩,
    ⟨"<where>".toList, .opens .whereClause⟩,
    ⟨"</where>".toList, .closes .whereClause⟩]

def readFixed? (t : Text) : Option (Tag × Text) :=
  fixed.findSome? fun tag => (Text.after? tag.text t).map fun rest => (tag, rest)

-- Reads the opening tag of a conditional: its only attribute is a test that is not empty.
def readConditional? (t : Text) : Option (Tag × Text) := do
  let named ← Text.after? "<if".toList t
  let blanks := named.takeWhile Text.isBlank
  let quoted ← Text.after? "test=\x22".toList (named.dropWhile Text.isBlank)
  let test := quoted.takeWhile (· != '"')
  let rest ← Text.after? "\x22>".toList (quoted.dropWhile (· != '"'))
  if blanks = [] ∨ test = [] then none
  else
    some (⟨"<if".toList ++ (blanks ++ ("test=\x22".toList ++ (test ++ "\x22>".toList))),
      .opens (.conditional test)⟩, rest)

-- Reads the opening tag of a loop, in any case. Its attributes end at the next `>`.
def readLoop? (t : Text) : Option (Tag × Text) := do
  let (name, named) ← Text.splitWord? "<foreach".toList t
  let blanks := named.takeWhile Text.isBlank
  let behind := named.dropWhile Text.isBlank
  let attributes := behind.takeWhile (· != '>')
  let rest ← Text.after? ['>'] (behind.dropWhile (· != '>'))
  if blanks = [] then none
  else
    some (⟨name ++ (blanks ++ (attributes ++ ['>'])),
      .opens (.loop (Loop.Header.read attributes))⟩, rest)

-- Reads the closing tag of a loop, in any case.
def readLoopEnd? (t : Text) : Option (Tag × Text) :=
  (Text.splitWord? "</foreach>".toList t).map fun (name, rest) => (⟨name, .closes .loop⟩, rest)

-- Reads a tag at the head of a text. No text begins with two different tags.
def read? : Text → Option (Tag × Text)
  | '<' :: t =>
    readConditional? ('<' :: t) <|> readLoop? ('<' :: t) <|> readLoopEnd? ('<' :: t) <|>
      readFixed? ('<' :: t)
  | _ => none

theorem append_of_readFixed? {t rest : Text} {tag : Tag} (h : readFixed? t = some (tag, rest)) :
    tag.text ++ rest = t ∧ tag.text ≠ [] := by
  simp only [readFixed?, List.findSome?_eq_some_iff] at h
  obtain ⟨_, found, _, hl, ha, _⟩ := h
  simp only [Option.map_eq_some_iff, Prod.mk.injEq] at ha
  obtain ⟨rest', ha, rfl, rfl⟩ := ha
  refine ⟨(Text.after?_eq_some_iff.1 ha).symm, ?_⟩
  have hm : found ∈ fixed := by simp [hl]
  simp only [fixed, List.mem_cons, List.not_mem_nil, or_false] at hm
  rcases hm with rfl | rfl | rfl | rfl | rfl <;> decide

theorem append_of_readConditional? {t rest : Text} {tag : Tag}
    (h : readConditional? t = some (tag, rest)) : tag.text ++ rest = t ∧ tag.text ≠ [] := by
  simp only [readConditional?, Option.bind_eq_bind, Option.bind_eq_some_iff,
    Text.after?_eq_some_iff] at h
  obtain ⟨named, hn, quoted, hq, rest', hr, h⟩ := h
  split at h
  · cases h
  · cases h
    refine ⟨?_, by simp⟩
    simp only [List.append_assoc]
    rw [← hr, List.takeWhile_append_dropWhile, ← hq, List.takeWhile_append_dropWhile, hn]

theorem append_of_readLoop? {t rest : Text} {tag : Tag} (h : readLoop? t = some (tag, rest)) :
    tag.text ++ rest = t ∧ tag.text ≠ [] := by
  simp only [readLoop?, Option.bind_eq_bind, Option.bind_eq_some_iff, Prod.exists,
    Text.after?_eq_some_iff] at h
  obtain ⟨name, named, hn, rest', hr, h⟩ := h
  split at h
  · cases h
  · cases h
    refine ⟨?_, by simp⟩
    simp only [List.append_assoc]
    rw [← hr, List.takeWhile_append_dropWhile, List.takeWhile_append_dropWhile,
      Text.append_of_splitWord? hn]

theorem append_of_readLoopEnd? {t rest : Text} {tag : Tag} (h : readLoopEnd? t = some (tag, rest)) :
    tag.text ++ rest = t ∧ tag.text ≠ [] := by
  simp only [readLoopEnd?, Option.map_eq_some_iff, Prod.exists, Prod.mk.injEq] at h
  obtain ⟨name, rest', hn, rfl, rfl⟩ := h
  refine ⟨Text.append_of_splitWord? hn, fun he => ?_⟩
  have hl := Text.length_of_splitWord? hn
  simp only at he
  simp [he] at hl

-- A tag holds what was read of it, and that is something.
theorem append_of_read? {t rest : Text} {tag : Tag} (h : read? t = some (tag, rest)) :
    tag.text ++ rest = t ∧ tag.text ≠ [] := by
  unfold read? at h
  split at h
  · simp only [Option.orElse_eq_orElse, Option.orElse_eq_or, Option.or_eq_some_iff] at h
    rcases h with h | ⟨_, h | ⟨_, h | ⟨_, h⟩⟩⟩
    · exact append_of_readConditional? h
    · exact append_of_readLoop? h
    · exact append_of_readLoopEnd? h
    · exact append_of_readFixed? h
  · cases h

def mark : Mark Tag where
  read? := read?
  length_lt := by
    intro t tag rest h
    obtain ⟨ha, hn⟩ := append_of_read? h
    rw [← ha, List.length_append]
    have := List.length_pos_iff.2 hn
    omega

end Tag

end SqlPreview
