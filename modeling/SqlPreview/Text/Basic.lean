namespace SqlPreview

abbrev Text := List Char

namespace Text

-- The length in UTF-8 bytes, the unit of every offset and length that is reported.
def byteLength : Text → Nat
  | [] => 0
  | c :: t => c.utf8Size + byteLength t

@[simp]
theorem byteLength_nil : byteLength [] = 0 := rfl

@[simp]
theorem byteLength_cons (c : Char) (t : Text) :
    byteLength (c :: t) = c.utf8Size + byteLength t := rfl

@[simp]
theorem byteLength_append (s t : Text) :
    byteLength (s ++ t) = byteLength s + byteLength t := by
  induction s with
  | nil => simp
  | cons c s ih => simp [ih, Nat.add_assoc]

theorem byteLength_eq_zero_iff {t : Text} : byteLength t = 0 ↔ t = [] := by
  cases t with
  | nil => simp
  | cons c t =>
    have hc := c.utf8Size_pos
    rw [byteLength_cons]
    exact iff_of_false (by omega) (List.cons_ne_nil c t)

theorem byteLength_pos {t : Text} (h : t ≠ []) : 0 < byteLength t :=
  Nat.pos_of_ne_zero (mt byteLength_eq_zero_iff.mp h)

-- The form under which letters are compared without regard to case. The long s is a small s and
-- the Kelvin sign a small k; the other letters that fold to ASCII are the capitals.
def foldCase (c : Char) : Char :=
  if c = '\u017f' then 's' else if c = '\u212a' then 'k' else c.toLower

-- Do two texts differ in case only? `word` is given in its folded form.
def spells (word t : Text) : Bool :=
  t.map foldCase == word

-- Splits `word`, in any case, off the front of a text. The first part is as written.
def splitWord? (word t : Text) : Option (Text × Text) :=
  if spells word (t.take word.length) then some (t.take word.length, t.drop word.length) else none

theorem append_of_splitWord? {word t head rest : Text}
    (h : splitWord? word t = some (head, rest)) : head ++ rest = t := by
  simp only [splitWord?] at h
  split at h
  · cases h
    exact List.take_append_drop _ _
  · cases h

theorem length_of_splitWord? {word t head rest : Text}
    (h : splitWord? word t = some (head, rest)) : head.length = word.length := by
  simp only [splitWord?] at h
  split at h
  · next hw =>
    cases h
    have hl := congrArg List.length (eq_of_beq hw)
    simpa using hl
  · cases h

def after? : (lead t : Text) → Option Text
  | [], t => some t
  | _ :: _, [] => none
  | l :: lead, c :: t => if c = l then after? lead t else none

theorem after?_eq_some_iff {lead t rest : Text} : after? lead t = some rest ↔ t = lead ++ rest := by
  induction lead generalizing t with
  | nil => simp [after?]
  | cons l lead ih =>
    cases t with
    | nil => simp [after?]
    | cons c t =>
      by_cases h : c = l
      · simp [after?, h, ih]
      · simp [after?, h]

-- What a reader finds at the head of a text, with the rest behind it. The rest is shorter.
def Shortens {α : Type} (t : Text) (found : Option (α × Text)) : Prop :=
  ∀ pair ∈ found, pair.2.length < t.length

section Shortens

variable {α β : Type} {s t : Text} {found : Option (α × Text)}

theorem shortens_none (t : Text) : Shortens t (none : Option (α × Text)) := by
  simp [Shortens]

theorem shortens_some {a : α} (h : s.length < t.length) : Shortens t (some (a, s)) := by
  simpa [Shortens] using h

theorem Shortens.length_lt {a : α} (h : Shortens t found) (hf : found = some (a, s)) :
    s.length < t.length :=
  h (a, s) hf

theorem Shortens.mono (h : Shortens s found) (hl : s.length ≤ t.length) : Shortens t found :=
  fun pair hp => Nat.lt_of_lt_of_le (h pair hp) hl

theorem Shortens.cons (h : Shortens t found) (c : Char) : Shortens (c :: t) found :=
  h.mono (Nat.le_succ _)

theorem Shortens.map (h : Shortens t found) (f : α → β) :
    Shortens t (found.map fun (a, rest) => (f a, rest)) := by
  intro pair hp
  obtain ⟨⟨a, rest⟩, ha, rfl⟩ := Option.map_eq_some_iff.1 hp
  exact h (a, rest) ha

theorem Shortens.or {other : Option (α × Text)} (h : Shortens t found) (ho : Shortens t other) :
    Shortens t (found.or other) := by
  cases found with
  | none => exact ho
  | some pair => exact h

theorem shortens_bind {γ : Type} {o : Option γ} {find : γ → Option (α × Text)}
    (h : ∀ c, Shortens t (find c)) : Shortens t (o.bind find) := by
  cases o with
  | none => exact shortens_none t
  | some c => exact h c

theorem shortens_dropWhile (p : Char → Bool) {a : α} (c : Char) (t : Text) :
    Shortens (c :: t) (some (a, t.dropWhile p)) :=
  shortens_some (Nat.lt_succ_of_le (List.dropWhile_suffix p).length_le)

end Shortens

-- Drops every copy of `lead` that the text begins with, one after another.
def dropRepeats (lead t : Text) : Text :=
  match _ : after? lead t with
  | some rest => if lead = [] then t else dropRepeats lead rest
  | none => t
termination_by t.length
decreasing_by
  have hp : 0 < lead.length := List.length_pos_iff.2 (by assumption)
  rw [after?_eq_some_iff.1 ‹after? lead t = some rest›, List.length_append]
  omega

end Text

end SqlPreview
