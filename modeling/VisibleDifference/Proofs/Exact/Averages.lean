import Mathlib.Algebra.Order.BigOperators.Ring.Finset
import Mathlib.Algebra.Order.Ring.Rat
import Mathlib.Dynamics.FixedPoints.Basic
import VisibleDifference.Proofs.Exact.Smoothing

/-!
# Averages

With taps that are not negative and sum to one a smoothed row consists of averages of the row: it
grows where the row does, and a constant row stays as it is. Both carry over to blurred planes and
from there to all levels of a pyramid, which keep the order of two planes and hence the bounds of
one, since bounds are an order between a plane and a constant one.
-/

namespace VisibleDifference

universe u

/-- Taps of an average. -/
structure Averaging {K : Type u} [CommSemiring K] [LE K] (t : Fin 5 → K) : Prop where
  nonneg : ∀ c, 0 ≤ t c
  sum_eq_one : ∑ c, t c = 1

theorem averaging_lowPassTaps : Averaging Kernel.lowPassTaps where
  nonneg := by decide +kernel
  sum_eq_one := Kernel.sum_lowPassTaps

namespace Plane

variable {α : Type u} [LE α] {w h : ℕ} {p : Plane α w h} {a : α}

/-- Nowhere above the other plane. -/
def Below (p q : Plane α w h) : Prop := ∀ x y, p.get x y ≤ q.get x y

theorem below_fill_iff : p.Below (fill a) ↔ ∀ x y, p.get x y ≤ a := by
  simp only [Below, get_fill]

theorem fill_below_iff : (fill a).Below p ↔ ∀ x y, a ≤ p.get x y := by
  simp only [Below, get_fill]

end Plane

section Constant

variable {K : Type u} [CommSemiring K] [LE K] {t : Fin 5 → K} {len w h : ℕ}

theorem smooth_const (ht : Averaging t) (a : K) (x : Fin len) : smooth t (fun _ => a) x = a := by
  rw [smooth, ← Finset.sum_mul, ht.sum_eq_one, one_mul]

theorem Plane.isFixedPt_fill (ht : Averaging t) (a : K) :
    Function.IsFixedPt (blur (.product t)) (fill a : Plane K w h) := by
  apply ext_get
  intro x y
  simp only [get_blur, tapSum_product, get_fill, smooth_const ht]

theorem Pyramid.level_fill (ht : Averaging t) (a : K) (l : Fin levelCount) :
    (of (.product t) (.fill a : Plane K w h)).level l = .fill a := by
  rw [level_eq_iterate]
  exact (Plane.isFixedPt_fill ht a).iterate l

end Constant

section Monotone

variable {K : Type u} [CommSemiring K] [PartialOrder K] [IsOrderedRing K] {t : Fin 5 → K}
  {len w h : ℕ} {p q : Plane K w h}

theorem smooth_mono (ht : Averaging t) {f g : Fin len → K} (hfg : ∀ x, f x ≤ g x) (x : Fin len) :
    smooth t f x ≤ smooth t g x :=
  Finset.sum_le_sum fun c _ => mul_le_mul_of_nonneg_left (hfg _) (ht.nonneg c)

theorem Plane.Below.blur (ht : Averaging t) (hpq : p.Below q) :
    (p.blur (.product t)).Below (q.blur (.product t)) := by
  intro x y
  rw [get_blur, get_blur, tapSum_product, tapSum_product]
  exact smooth_mono ht (fun y' => smooth_mono ht (fun x' => hpq x' y') x) y

theorem Plane.Below.iterate (ht : Averaging t) (hpq : p.Below q) (n : ℕ) :
    ((Plane.blur (.product t))^[n] p).Below ((Plane.blur (.product t))^[n] q) := by
  induction n with
  | zero => exact hpq
  | succ n ih =>
    rw [Function.iterate_succ_apply', Function.iterate_succ_apply']
    exact ih.blur ht

theorem Pyramid.level_mono (ht : Averaging t) (hpq : p.Below q) (l : Fin levelCount) :
    ((of (.product t) p).level l).Below ((of (.product t) q).level l) := by
  rw [level_eq_iterate, level_eq_iterate]
  exact hpq.iterate ht l

end Monotone

namespace Pyramid

variable {w h : ℕ}

/-- With weights that are not rounded, a plane that is nowhere above another is so at each level, a
constant plane is the same at all levels, and so no level leaves the range of its source. -/
theorem levels_keep_order_and_range :
    (∀ r c, (Kernel.lowPass : Kernel ℚ).weight r c =
      Kernel.lowPassTaps r * Kernel.lowPassTaps c) ∧
    ∀ l : Fin levelCount,
      (∀ p q : Plane ℚ w h, (∀ x y, p.get x y ≤ q.get x y) →
        ∀ x y, (of Kernel.lowPass p).value l x y ≤ (of Kernel.lowPass q).value l x y) ∧
      (∀ a, (of Kernel.lowPass (.fill a : Plane ℚ w h)).level l = .fill a) ∧
      ∀ (p : Plane ℚ w h) (m M : ℚ), (∀ x y, m ≤ p.get x y ∧ p.get x y ≤ M) →
        ∀ x y, m ≤ (of Kernel.lowPass p).value l x y ∧ (of Kernel.lowPass p).value l x y ≤ M := by
  refine ⟨Kernel.weight_lowPass, fun l => ?_⟩
  have ht := averaging_lowPassTaps
  rw [Kernel.lowPass_eq_product]
  refine ⟨fun p q hpq => level_mono ht hpq l, fun a => level_fill ht a l,
    fun p m M hrange x y => ⟨?_, ?_⟩⟩
  · have hlow := level_mono ht (Plane.fill_below_iff.mpr fun x y => (hrange x y).1) l
    rw [level_fill ht] at hlow
    exact Plane.fill_below_iff.mp hlow x y
  · have hhigh := level_mono ht (Plane.below_fill_iff.mpr fun x y => (hrange x y).2) l
    rw [level_fill ht] at hhigh
    exact Plane.below_fill_iff.mp hhigh x y

/-- Dark on the left and light on the right. -/
def step : Plane ℚ 2 1 := .ofFn fun x _ => x

/-- A step that is folded back again and again stays between its two values, and below a plane that
is light throughout. -/
theorem step_stays_between :
    (∀ x y, 0 ≤ step.get x y ∧ step.get x y ≤ 1) ∧
    (∀ x y, step.get x y ≤ (Plane.fill 1 : Plane ℚ 2 1).get x y) ∧
    (∀ x y, 0 ≤ (of Kernel.lowPass step).value 7 x y ∧
      (of Kernel.lowPass step).value 7 x y ≤ 1) ∧
    (∀ x y, (of Kernel.lowPass step).value 7 x y ≤
      (of Kernel.lowPass (.fill 1 : Plane ℚ 2 1)).value 7 x y) ∧
    (of Kernel.lowPass step).value 1 0 0 = 1 / 2 := by
  have hrange : ∀ x y, 0 ≤ step.get x y ∧ step.get x y ≤ 1 := by decide +kernel
  have hbelow : ∀ x y, step.get x y ≤ (Plane.fill 1 : Plane ℚ 2 1).get x y := by decide +kernel
  obtain ⟨hmono, -, hbounds⟩ := (levels_keep_order_and_range (w := 2) (h := 1)).2 7
  exact ⟨hrange, hbelow, hbounds step 0 1 hrange, hmono step _ hbelow, by decide +kernel⟩

end Pyramid

end VisibleDifference
