import Mathlib.Algebra.BigOperators.Fin
import Mathlib.Algebra.BigOperators.Ring.Finset
import Mathlib.Algebra.Field.Rat
import Mathlib.Data.Fin.VecNotation
import VisibleDifference.Pyramid.Levels

/-!
# Blurring exact numbers

Over numbers that are not rounded the chain of multiply-adds is a sum. The weights of the low-pass
kernel are products of two taps there, so a blur smooths the rows of a plane and then its columns,
or the other way round: what smoothing does to one row it does to planes. The levels of a pyramid
are iterates of the blur, which carries what one blur does over to all of them.
-/

namespace VisibleDifference

universe u

/-- Multiply-adds without rounding. -/
instance (priority := low) exactMulAdd {R : Type u} [Semiring R] : MulAdd R where
  zero := 0
  mulAdd a b c := a * b + c

namespace Kernel

/-- Each weight is the product of the tap of its row and that of its column. -/
def product {R : Type u} [Mul R] (t : Fin 5 → R) : Kernel R := ofFn fun r c => t r * t c

def lowPassTaps : Fin 5 → ℚ := ![0.05, 0.25, 0.4, 0.25, 0.05]

/-- In rational numbers no weight is rounded. -/
theorem weight_lowPass (r c : Fin 5) :
    (lowPass : Kernel ℚ).weight r c = lowPassTaps r * lowPassTaps c := by
  revert r c
  decide +kernel

theorem lowPass_eq_product : (lowPass : Kernel ℚ) = product lowPassTaps := by
  have hweights : (fun r c => lowPassTaps r * lowPassTaps c) =
      fun r c => OfScientific.ofScientific (tap r * tap c) true 4 := by
    funext r c
    rw [← weight_lowPass, lowPass, weight_ofFn]
  rw [product, hweights, lowPass]

theorem sum_lowPassTaps : ∑ c, lowPassTaps c = 1 := by decide +kernel

end Kernel

section Smooth

variable {R : Type u} [CommSemiring R] {len : ℕ}

/-- A row whose ends are folded back, smoothed by five taps. -/
def smooth (t : Fin 5 → R) (f : Fin len → R) (x : Fin len) : R :=
  ∑ c, t c * f (neighbour x (Plane.tapOffset c))

theorem foldl_add_eq_sum {n : ℕ} (f : Fin n → R) (acc : R) :
    (List.finRange n).foldl (fun acc i => f i + acc) acc = ∑ i, f i + acc := by
  rw [Fin.sum_univ_def]
  induction List.finRange n generalizing acc with
  | nil => simp
  | cons i l ih =>
    rw [List.foldl_cons, ih, List.map_cons, List.sum_cons, add_left_comm, add_assoc]

namespace Plane

variable {w h : ℕ}

theorem tapSum_eq_sum (k : Kernel R) (p : Plane R w h) (x : Fin w) (y : Fin h) :
    p.tapSum k x y =
      ∑ r, ∑ c, k.weight r c * p.get (neighbour x (tapOffset c)) (neighbour y (tapOffset r)) := by
  have hrow (r : Fin 5) (acc : R) : (List.finRange 5).foldl
      (fun acc c => MulAdd.mulAdd (k.weight r c)
        (p.get (neighbour x (tapOffset c)) (neighbour y (tapOffset r))) acc) acc =
      ∑ c, k.weight r c * p.get (neighbour x (tapOffset c)) (neighbour y (tapOffset r)) + acc :=
    foldl_add_eq_sum _ acc
  simp only [tapSum, hrow]
  exact (foldl_add_eq_sum _ _).trans (add_zero _)

variable (t : Fin 5 → R) (p : Plane R w h) (x : Fin w) (y : Fin h)

theorem tapSum_product :
    p.tapSum (.product t) x y = smooth t (fun y' => smooth t (fun x' => p.get x' y') x) y := by
  simp only [tapSum_eq_sum, Kernel.product, Kernel.weight_ofFn, smooth, Finset.mul_sum, mul_assoc]

/-- Columns may be smoothed before rows. -/
theorem tapSum_product_swap :
    p.tapSum (.product t) x y = smooth t (fun x' => smooth t (fun y' => p.get x' y') y) x := by
  simp only [tapSum_product, smooth, Finset.mul_sum]
  rw [Finset.sum_comm]
  simp only [mul_left_comm]

end Plane

end Smooth

namespace Pyramid

variable {α : Type u} [MulAdd α] {w h : ℕ}

theorem level_eq_iterate (k : Kernel α) (p : Plane α w h) (l : Fin levelCount) :
    (of k p).level l = (Plane.blur k)^[l.val] p := by
  obtain ⟨l, hl⟩ := l
  induction l with
  | zero => exact level_of_zero k p _ rfl
  | succ l ih =>
    have hl' : l < levelCount := Nat.lt_of_succ_lt hl
    rw [level_of_succ k p (l := ⟨l, hl'⟩) rfl, ih hl', Function.iterate_succ_apply']

end Pyramid

end VisibleDifference
