import Mathlib.Data.Nat.Find
import Mathlib.Order.Bounds.Defs
import SqlPreview.Event

namespace SqlPreview

namespace Text

variable {room : Nat} {t front other : Text}

theorem lastBoundary_eq_findGreatest (t : Text) (n : Nat) :
    lastBoundary t n = Nat.findGreatest (fun m => isBoundary t m) n := by
  induction n with
  | zero => rfl
  | succ n ih => rw [lastBoundary, Nat.findGreatest_succ, ih]

theorem isGreatest_lastBoundary (t : Text) (n : Nat) :
    IsGreatest {m | isBoundary t m ∧ m ≤ n} (lastBoundary t n) := by
  refine ⟨⟨isBoundary_lastBoundary t n, ?_⟩, fun m ⟨hm, hn⟩ => ?_⟩
  · rw [lastBoundary_eq_findGreatest]
    exact Nat.findGreatest_le n
  · rw [lastBoundary_eq_findGreatest]
    exact Nat.le_findGreatest hn hm

-- Of two fronts of a text, the one that takes no more bytes is a front of the other.
theorem prefix_of_byteLength_le (hfront : front <+: t) (hother : other <+: t)
    (hle : byteLength front ≤ byteLength other) : front <+: other := by
  rcases List.prefix_or_prefix_of_prefix hfront hother with h | ⟨rest, rfl⟩
  · exact h
  · rw [byteLength_append] at hle
    obtain rfl : rest = [] := byteLength_eq_zero_iff.mp (by omega)
    simp

-- The most that can be kept of a text in `room` bytes without cutting a character in two.
structure LongestFront (room : Nat) (t front : Text) : Prop where
  isFront : front <+: t
  fits : byteLength front ≤ room
  longest : ∀ {other}, other <+: t → byteLength other ≤ room → other <+: front

-- The first character that is left out would not have fitted.
theorem LongestFront.room_lt_add_four (h : LongestFront room t front) (hroom : room < byteLength t) :
    room < byteLength front + 4 := by
  obtain ⟨rest, rfl⟩ := h.isFront
  cases rest with
  | nil =>
    have hfits := h.fits
    rw [List.append_nil] at hroom
    omega
  | cons c rest =>
    have hsize := c.utf8Size_le_four
    have hlength : byteLength (front ++ [c]) = byteLength front + c.utf8Size := by simp
    -- One more character would make a longer front.
    have hnot : ¬ byteLength (front ++ [c]) ≤ room := by
      intro hle
      have hmore : front ++ [c] <+: front := h.longest ⟨rest, by simp⟩ hle
      have hlonger := hmore.length_le
      rw [List.length_append, List.length_singleton] at hlonger
      omega
    omega

theorem longestFront_lastBoundary (h : takeBytes? (lastBoundary t room) t = some front) :
    LongestFront room t front := by
  obtain ⟨hfront, hlength⟩ := takeBytes?_eq_some_iff.mp h
  have hgreatest := isGreatest_lastBoundary t room
  rw [← hlength] at hgreatest
  refine ⟨hfront, hgreatest.1.2, fun {other} hother hle => ?_⟩
  apply prefix_of_byteLength_le hother hfront
  exact hgreatest.2 ⟨isBoundary_iff.mpr ⟨other, hother, rfl⟩, hle⟩

end Text

namespace Event

-- A statement of at most 200 bytes is shown as it is. Of a longer one the event shows the most that fits
-- into 200 bytes, which is 197 bytes at least, so that the search ends before the start of the text.
theorem shorten_longestFront (sql : Text) :
    (Text.byteLength sql ≤ 200 ∧ shorten sql = sql) ∨
      (200 < Text.byteLength sql ∧ ∃ shown, shorten sql = shown ++ "...".toList ∧
        Text.LongestFront 200 sql shown ∧
        197 ≤ Text.byteLength shown ∧ Text.byteLength shown ≤ 200 ∧
        0 < Text.lastBoundary sql maxShown ∧
        Text.takeBytes? (Text.lastBoundary sql maxShown) sql = some shown) := by
  by_cases h : Text.byteLength sql ≤ maxShown
  · exact .inl ⟨h, if_pos h⟩
  · have hcut := Text.isSome_takeBytes?_lastBoundary sql maxShown
    obtain ⟨shown, hshown⟩ := Option.isSome_iff_exists.mp hcut
    have hlongest := Text.longestFront_lastBoundary hshown
    have hlength := (Text.takeBytes?_eq_some_iff.mp hshown).2
    have hroom := hlongest.room_lt_add_four (Nat.lt_of_not_le h)
    rw [maxShown] at hroom
    refine .inr ⟨Nat.lt_of_not_le h, shown, ?_, hlongest, by omega, hlongest.fits, by omega, hshown⟩
    simp only [shorten, if_neg h, hshown, Option.get_some]

-- The last character takes the bytes 197 to 200 and is left out whole.
example : shorten ('a' :: List.replicate 50 (Char.ofNat 0x1f600)) =
    'a' :: List.replicate 49 (Char.ofNat 0x1f600) ++ "...".toList := by
  decide +kernel

end Event

end SqlPreview
