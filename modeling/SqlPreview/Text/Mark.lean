import SqlPreview.Text.Basic

namespace SqlPreview

-- A kind of mark, given by a reader that takes one off the head of a text. It takes at least one
-- character.
structure Mark (α : Type) where
  read? : Text → Option (α × Text)
  length_lt : ∀ {t a rest}, read? t = some (a, rest) → rest.length < t.length

-- One character of a text that belongs to no mark, or one mark.
inductive Piece (α : Type) where
  | char (c : Char)
  | mark (a : α)
deriving DecidableEq, Repr

namespace Piece

variable {α : Type}

def mark? : Piece α → Option α
  | char _ => none
  | mark a => some a

-- The text of a piece when its mark is written as `write` says.
def write (write : α → Text) : Piece α → Text
  | char c => [c]
  | mark a => write a

end Piece

namespace Mark

variable {α : Type}

-- The pieces of a text, leftmost mark first.
def scan (m : Mark α) : Text → List (Piece α)
  | [] => []
  | c :: t =>
    match _ : m.read? (c :: t) with
    | some (a, rest) => .mark a :: m.scan rest
    | none => .char c :: m.scan t
termination_by t => t.length
decreasing_by
  · exact m.length_lt ‹_›
  · simp

theorem scan_nil (m : Mark α) : m.scan [] = [] := by
  rw [scan]

theorem scan_of_read? (m : Mark α) {t rest : Text} {a : α} (h : m.read? t = some (a, rest)) :
    m.scan t = .mark a :: m.scan rest := by
  cases t with
  | nil => exact absurd (m.length_lt h) (by simp)
  | cons c t =>
    rw [scan]
    split
    · next a' rest' h' =>
      rw [h] at h'
      cases h'
      rfl
    · next h' => simp [h] at h'

theorem scan_cons (m : Mark α) {c : Char} {t : Text} (h : m.read? (c :: t) = none) :
    m.scan (c :: t) = .char c :: m.scan t := by
  rw [scan]
  split
  · next h' => simp [h] at h'
  · rfl

def all (m : Mark α) (t : Text) : List α :=
  (m.scan t).filterMap Piece.mark?

-- The text with every mark written as `write` says.
def replace (m : Mark α) (write : α → Text) (t : Text) : Text :=
  (m.scan t).flatMap (Piece.write write)

-- A mark of which only the place matters, given by what follows it.
def ofRest (rest? : Text → Option Text)
    (h : ∀ {t rest}, rest? t = some rest → rest.length < t.length) : Mark Unit where
  read? t := (rest? t).map fun rest => ((), rest)
  length_lt := by
    intro t a rest hr
    simp only [Option.map_eq_some_iff, Prod.mk.injEq, true_and] at hr
    obtain ⟨rest', hr, rfl⟩ := hr
    exact h hr

end Mark

end SqlPreview
