import SqlPreview.Text.Basic

namespace SqlPreview.Text

-- Code point ranges, lowest first, both ends included.
abbrev Ranges := List (Nat × Nat)

namespace Ranges

def holds (ranges : Ranges) (c : Char) : Bool :=
  ranges.any fun (low, high) => decide (low ≤ c.toNat) && decide (c.toNat ≤ high)

theorem holds_iff {ranges : Ranges} {c : Char} :
    ranges.holds c ↔ ∃ range ∈ ranges, range.1 ≤ c.toNat ∧ c.toNat ≤ range.2 := by
  simp [holds]

end Ranges

end SqlPreview.Text
