import SqlPreview.Text.Basic
import SqlPreview.Text.Ranges

namespace SqlPreview.Text

-- The twenty-five code points with the property White_Space.
def blankRanges : Ranges :=
  [(0x9, 0xd), (0x20, 0x20), (0x85, 0x85), (0xa0, 0xa0), (0x1680, 0x1680), (0x2000, 0x200a),
    (0x2028, 0x2029), (0x202f, 0x202f), (0x205f, 0x205f), (0x3000, 0x3000)]

def isBlank (c : Char) : Bool :=
  blankRanges.holds c

def trimStart (t : Text) : Text :=
  t.dropWhile isBlank

def trimEnd (t : Text) : Text :=
  (t.reverse.dropWhile isBlank).reverse

def trim (t : Text) : Text :=
  trimEnd (trimStart t)

-- A text that holds blanks only, or nothing.
def allBlank (t : Text) : Bool :=
  t.all isBlank

theorem dropWhile_eq_nil_iff {t : Text} : t.dropWhile isBlank = [] ↔ allBlank t := by
  induction t with
  | nil => simp [allBlank]
  | cons c t ih =>
    simp only [allBlank] at ih
    cases h : isBlank c <;> simp [allBlank, h, ih]

theorem allBlank_dropWhile {t : Text} : allBlank (t.dropWhile isBlank) ↔ allBlank t := by
  induction t with
  | nil => simp
  | cons c t ih =>
    simp only [allBlank] at ih
    cases h : isBlank c <;> simp [allBlank, h, ih]

theorem trim_eq_nil_iff {t : Text} : trim t = [] ↔ allBlank t := by
  rw [trim, trimEnd, List.reverse_eq_nil_iff, dropWhile_eq_nil_iff, ← allBlank_dropWhile (t := t)]
  simp [allBlank, trimStart]

end SqlPreview.Text
