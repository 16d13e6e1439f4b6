import SqlPreview.Text.Basic

namespace SqlPreview.Text

-- Does a character begin behind the first `n` bytes, or does the text end there? The byte of the UTF-8
-- form at that place tells.
def isBoundary (t : Text) (n : Nat) : Bool :=
  String.Pos.Raw.isValid (String.ofList t) ⟨n⟩

-- The last boundary up to `n`, searched for backwards.
def lastBoundary (t : Text) : Nat → Nat
  | 0 => 0
  | n + 1 => if isBoundary t (n + 1) then n + 1 else lastBoundary t n

-- The first `n` bytes of a text, unless they end within a character or the text is shorter.
def takeBytes? : Nat → Text → Option Text
  | 0, _ => some []
  | _ + 1, [] => none
  | n + 1, c :: t =>
    if c.utf8Size ≤ n + 1 then (takeBytes? (n + 1 - c.utf8Size) t).map (c :: ·) else none

theorem takeBytes?_eq_some_iff {n : Nat} {t front : Text} :
    takeBytes? n t = some front ↔ front <+: t ∧ byteLength front = n := by
  induction t generalizing n front with
  | nil => cases n <;> cases front <;> simp [takeBytes?]
  | cons c t ih =>
    cases n with
    | zero =>
      rw [takeBytes?, byteLength_eq_zero_iff, Option.some_inj, eq_comm]
      exact ⟨fun h => ⟨h ▸ List.nil_prefix, h⟩, And.right⟩
    | succ n =>
      cases front with
      | nil => simp [takeBytes?]
      | cons d front =>
        rw [takeBytes?, List.cons_prefix_cons, byteLength_cons]
        by_cases hc : c.utf8Size ≤ n + 1
        · rw [if_pos hc, Option.map_eq_some_iff]
          constructor
          · rintro ⟨behind, hbehind, heq⟩
            obtain ⟨rfl, rfl⟩ := List.cons.inj heq
            obtain ⟨hfront, hlength⟩ := ih.mp hbehind
            exact ⟨⟨rfl, hfront⟩, by omega⟩
          · rintro ⟨⟨rfl, hfront⟩, hlength⟩
            exact ⟨front, ih.mpr ⟨hfront, by omega⟩, rfl⟩
        · rw [if_neg hc]
          constructor
          · intro h
            cases h
          · rintro ⟨⟨rfl, _⟩, hlength⟩
            omega

theorem utf8ByteSize_ofList (t : Text) : (String.ofList t).utf8ByteSize = byteLength t := by
  induction t with
  | nil => rfl
  | cons c t ih =>
    rw [String.ofList_cons, String.utf8ByteSize_append, String.utf8ByteSize_singleton, ih,
      byteLength_cons]

-- The boundaries are the lengths of the fronts of the text.
theorem isBoundary_iff {t : Text} {n : Nat} :
    isBoundary t n ↔ ∃ front, front <+: t ∧ byteLength front = n := by
  rw [isBoundary, String.Pos.Raw.isValid_eq_true_iff, String.Pos.Raw.isValid_ofList]
  constructor
  · rintro ⟨i, hi⟩
    exact ⟨t.take i, List.take_prefix i t, (utf8ByteSize_ofList (t.take i)).symm.trans hi.symm⟩
  · rintro ⟨front, hfront, rfl⟩
    refine ⟨front.length, ?_⟩
    rw [← List.prefix_iff_eq_take.mp hfront, utf8ByteSize_ofList]

theorem isSome_takeBytes?_iff {t : Text} {n : Nat} :
    (takeBytes? n t).isSome ↔ isBoundary t n := by
  rw [Option.isSome_iff_exists, isBoundary_iff]
  exact exists_congr fun front => takeBytes?_eq_some_iff

theorem isBoundary_zero (t : Text) : isBoundary t 0 :=
  isBoundary_iff.mpr ⟨[], List.nil_prefix, rfl⟩

theorem isBoundary_lastBoundary (t : Text) (n : Nat) : isBoundary t (lastBoundary t n) := by
  induction n with
  | zero => exact isBoundary_zero t
  | succ n ih =>
    rw [lastBoundary]
    split
    · assumption
    · exact ih

theorem isSome_takeBytes?_lastBoundary (t : Text) (n : Nat) :
    (takeBytes? (lastBoundary t n) t).isSome :=
  isSome_takeBytes?_iff.mpr (isBoundary_lastBoundary t n)

end SqlPreview.Text
