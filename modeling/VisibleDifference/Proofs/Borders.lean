import Mathlib.Tactic.Common
import VisibleDifference.Grid.Border

/-!
# How far a folded position moves

Folding a row back leaves its own positions alone and brings positions next to each other to places
at most one apart. A tap is therefore never further from its sample than its offset, near both
borders and in rows shorter than the reach of the filter.
-/

namespace VisibleDifference

/-- At most `r` apart. -/
def Within (r x x' : Nat) : Prop := x ≤ x' + r ∧ x' ≤ x + r

instance (r x x' : Nat) : Decidable (Within r x x') := inferInstanceAs (Decidable (_ ∧ _))

namespace Within

variable {r s x y z : Nat}

theorem refl : Within r x x := ⟨Nat.le_add_right x r, Nat.le_add_right x r⟩

theorem symm (hx : Within r x y) : Within r y x := ⟨hx.2, hx.1⟩

theorem trans (hx : Within r x y) (hy : Within s y z) : Within (r + s) x z := by
  obtain ⟨hx₁, hx₂⟩ := hx
  obtain ⟨hy₁, hy₂⟩ := hy
  constructor <;> omega

theorem mono (hr : r ≤ s) (hx : Within r x y) : Within s x y := by
  obtain ⟨hx₁, hx₂⟩ := hx
  constructor <;> omega

end Within

theorem foldBack_of_lt {len x : Nat} (hx : x < len) : foldBack len x = x := by
  unfold foldBack
  split
  · omega
  · have hm : ((x : Int) % ((2 * len - 2 : Nat) : Int)).toNat = x := by
      rw [Int.emod_eq_of_lt (by omega) (by omega), Int.toNat_natCast]
    simp only [hm, if_pos hx]

theorem emod_succ {p : Int} (hp : 0 < p) (i : Int) :
    (i + 1) % p = if i % p + 1 = p then 0 else i % p + 1 := by
  have h0 := Int.emod_nonneg i (Int.ne_of_gt hp)
  have hlt := Int.emod_lt_of_pos i hp
  rw [← Int.emod_add_emod]
  split
  · next he => rw [he, Int.emod_self]
  · exact Int.emod_eq_of_lt (by omega) (by omega)

/-- A step of one moves the shown sample by at most one. -/
theorem foldBack_step (len : Nat) (i : Int) :
    Within 1 (foldBack len i) (foldBack len (i + 1)) := by
  by_cases hl : len ≤ 1
  · simp only [foldBack, if_pos hl]
    exact Within.refl
  · have hp : (0 : Int) < ((2 * len - 2 : Nat) : Int) := by omega
    have h0 := Int.emod_nonneg i (Int.ne_of_gt hp)
    have hlt := Int.emod_lt_of_pos i hp
    simp only [foldBack, if_neg hl, emod_succ hp, Within]
    by_cases he : i % ((2 * len - 2 : Nat) : Int) + 1 = ((2 * len - 2 : Nat) : Int)
    · -- the turn at the start of the row
      rw [if_pos he]
      split <;> split <;> omega
    · rw [if_neg he]
      split <;> split <;> omega

theorem foldBack_walk (len n : Nat) (i : Int) :
    Within n (foldBack len i) (foldBack len (i + n)) := by
  induction n with
  | zero =>
    rw [Int.natCast_zero, Int.add_zero]
    exact Within.refl
  | succ n ih =>
    rw [Int.natCast_succ, ← Int.add_assoc]
    exact ih.trans (foldBack_step len _)

/-- The sample seen `d` positions away is at most as far away. -/
theorem neighbour_within {len : Nat} (x : Fin len) (d : Int) :
    Within d.natAbs x (neighbour x d) := by
  have hx := foldBack_of_lt x.isLt
  obtain hd | hd := Int.natAbs_eq d
  · have hw := foldBack_walk len d.natAbs x
    rw [hx, ← hd] at hw
    exact hw
  · have hw := foldBack_walk len d.natAbs (x.val + d)
    have hback : (x.val : Int) + d + d.natAbs = x.val := by omega
    rw [hback, hx] at hw
    exact hw.symm

end VisibleDifference
