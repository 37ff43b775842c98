/-!
# Borders

A row of samples is continued past its ends by folding it back, without repeating the end sample:
position `-1` shows sample `1`, and position `len` shows sample `len - 2`. Rows shorter than the
reach of a filter are folded again and again.
-/

namespace VisibleDifference

/-- The sample shown at position `i` of a row of `len` samples. -/
def foldBack (len : Nat) (i : Int) : Nat :=
  if len ≤ 1 then 0
  else
    let period := 2 * len - 2
    let r := (i % (period : Int)).toNat
    if r < len then r else period - r

theorem foldBack_lt {len : Nat} (hl : 0 < len) (i : Int) : foldBack len i < len := by
  unfold foldBack
  split
  · exact hl
  · dsimp only
    split <;> omega

/-- The sample seen `d` positions away from sample `x`. -/
def neighbour {len : Nat} (x : Fin len) (d : Int) : Fin len :=
  ⟨foldBack len (x.val + d), foldBack_lt (Nat.zero_lt_of_lt x.isLt) _⟩

end VisibleDifference
