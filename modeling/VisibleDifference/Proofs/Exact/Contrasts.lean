import Mathlib.Algebra.Order.BigOperators.Group.List
import Mathlib.Algebra.Order.Field.Basic
import Mathlib.Tactic.NormNum
import VisibleDifference.Proofs.Borders
import VisibleDifference.Proofs.Exact.Averages
import VisibleDifference.Pyramid.Contrast

/-!
# Contrasts

An average that is taken with a positive weight at its centre keeps that share of what is there, so
from one level to the next the luminance of a pixel falls at most to a fixed fraction. The change
that the contrast of a band measures and the surround it is divided by lie two levels apart. Hence
the quotient is bounded, however dark the surround is; taking the larger change and the larger
surround of two pyramids does not alter the bound.
-/

namespace VisibleDifference

universe u

/-- Magnitudes without rounding. -/
instance (priority := low) exactMagnitude {K : Type u} [LinearOrder K] [AddGroup K] :
    Magnitude K where
  magnitude a := |a|
  larger := max

theorem neighbour_zero {len : ℕ} (x : Fin len) : neighbour x 0 = x := by
  apply Fin.ext
  simp only [neighbour, add_zero, foldBack_of_lt x.isLt]

section Centre

variable {K : Type u} [CommSemiring K] [PartialOrder K] [IsOrderedRing K] {t : Fin 5 → K}
  {len w h : ℕ} {p : Plane K w h}

theorem centre_le_smooth (ht : Averaging t) {f : Fin len → K} (hf : ∀ x, 0 ≤ f x) (x : Fin len) :
    t 2 * f x ≤ smooth t f x := by
  have hoffset : Plane.tapOffset 2 = 0 := rfl
  calc t 2 * f x = t 2 * f (neighbour x (Plane.tapOffset 2)) := by rw [hoffset, neighbour_zero]
    _ ≤ smooth t f x := Finset.single_le_sum
      (f := fun c => t c * f (neighbour x (Plane.tapOffset c)))
      (fun c _ => mul_nonneg (ht.nonneg c) (hf _)) (Finset.mem_univ 2)

theorem Plane.centre_le_blur (ht : Averaging t) (hp : ∀ x y, 0 ≤ p.get x y) (x : Fin w)
    (y : Fin h) : t 2 * t 2 * p.get x y ≤ (p.blur (.product t)).get x y := by
  have hrow (y' : Fin h) : t 2 * p.get x y' ≤ smooth t (fun x' => p.get x' y') x :=
    centre_le_smooth ht (fun x' => hp x' y') x
  have hnonneg (y' : Fin h) : 0 ≤ smooth t (fun x' => p.get x' y') x :=
    (mul_nonneg (ht.nonneg 2) (hp x y')).trans (hrow y')
  rw [get_blur, tapSum_product]
  calc t 2 * t 2 * p.get x y = t 2 * (t 2 * p.get x y) := mul_assoc _ _ _
    _ ≤ t 2 * smooth t (fun x' => p.get x' y) x :=
      mul_le_mul_of_nonneg_left (hrow y) (ht.nonneg 2)
    _ ≤ smooth t (fun y' => smooth t (fun x' => p.get x' y') x) y := centre_le_smooth ht hnonneg y

theorem Pyramid.nonneg_value (ht : Averaging t) (hp : ∀ x y, 0 ≤ p.get x y) (l : Fin levelCount)
    (x : Fin w) (y : Fin h) : 0 ≤ (of (.product t) p).value l x y := by
  have hlow := level_mono ht (Plane.fill_below_iff.mpr hp) l
  rw [level_fill ht] at hlow
  exact Plane.fill_below_iff.mp hlow x y

/-- A level keeps at each pixel the centre's share of the level below. -/
theorem Pyramid.centre_le_value (ht : Averaging t) (hp : ∀ x y, 0 ≤ p.get x y)
    {l l' : Fin levelCount} (hl : l'.val = l.val + 1) (x : Fin w) (y : Fin h) :
    t 2 * t 2 * (of (.product t) p).value l x y ≤ (of (.product t) p).value l' x y := by
  rw [value, value, level_of_succ _ p hl]
  exact Plane.centre_le_blur ht (nonneg_value ht hp l) x y

end Centre

section Quotient

variable {K : Type u} [Field K] [LinearOrder K] [IsStrictOrderedRing K]

/-- Of three numbers, none of which falls below the share `r` of the one before, the first two
differ by at most a multiple of the third. -/
theorem abs_sub_le_of_shares {a b c r : K} (ha : 0 ≤ a) (hr : 0 < r) (hr' : r ≤ 1)
    (hb : r * a ≤ b) (hc : r * b ≤ c) : |a - b| ≤ (r * r)⁻¹ * c := by
  have hb' : 0 ≤ b := (mul_nonneg hr.le ha).trans hb
  have hfirst : r * r * a ≤ c := by
    rw [mul_assoc]
    exact (mul_le_mul_of_nonneg_left hb hr.le).trans hc
  have hsecond : r * r * b ≤ c := by
    rw [mul_assoc]
    exact (mul_le_mul_of_nonneg_left (mul_le_of_le_one_left hb' hr') hr.le).trans hc
  have hrr : 0 < r * r := mul_pos hr hr
  exact abs_sub_le_of_nonneg_of_le ha ((le_inv_mul_iff₀ hrr).mpr hfirst) hb'
    ((le_inv_mul_iff₀ hrr).mpr hsecond)

/-- A bound of two quotients bounds the quotient of the maxima, too. -/
theorem max_div_max_le {n₁ n₂ d₁ d₂ floor r : K} (hr : 0 ≤ r) (hfloor : 0 < floor)
    (h₁ : n₁ ≤ r * d₁) (h₂ : n₂ ≤ r * d₂) : max n₁ n₂ / max (max d₁ d₂) floor ≤ r := by
  have hd : 0 < max (max d₁ d₂) floor := hfloor.trans_le (le_max_right _ _)
  have hd₁ : d₁ ≤ max (max d₁ d₂) floor := (le_max_left _ _).trans (le_max_left _ _)
  have hd₂ : d₂ ≤ max (max d₁ d₂) floor := (le_max_right _ _).trans (le_max_left _ _)
  refine (div_le_iff₀ hd).mpr (max_le ?_ ?_)
  · exact h₁.trans (mul_le_mul_of_nonneg_left hd₁ hr)
  · exact h₂.trans (mul_le_mul_of_nonneg_left hd₂ hr)

variable {t : Fin 5 → K} {w h : ℕ} {floor : K} {p q : Plane K w h}

theorem change_le_surround (ht : Averaging t) (hcentre : 0 < t 2 * t 2) (hone : t 2 * t 2 ≤ 1)
    (hp : ∀ x y, 0 ≤ p.get x y) (x : Fin w) (y : Fin h) (i : Fin bandCount) :
    |(Pyramid.of (.product t) p).value (ownLevel i) x y -
        (Pyramid.of (.product t) p).value (bandLevel i 1) x y| ≤
      (t 2 * t 2 * (t 2 * t 2))⁻¹ * |(Pyramid.of (.product t) p).value (bandLevel i 2) x y| := by
  rw [abs_of_nonneg (Pyramid.nonneg_value ht hp (bandLevel i 2) x y)]
  exact abs_sub_le_of_shares (Pyramid.nonneg_value ht hp _ x y) hcentre hone
    (Pyramid.centre_le_value ht hp rfl x y) (Pyramid.centre_le_value ht hp rfl x y)

theorem bandContrast_nonneg (hfloor : 0 < floor) (p q : Pyramid K w h) (x : Fin w) (y : Fin h)
    (i : Fin bandCount) : 0 ≤ bandContrast floor p q x y i :=
  div_nonneg (le_max_of_le_left (abs_nonneg _)) (hfloor.le.trans (le_max_right _ _))

theorem bandContrast_le (ht : Averaging t) (hcentre : 0 < t 2 * t 2) (hone : t 2 * t 2 ≤ 1)
    (hfloor : 0 < floor) (hp : ∀ x y, 0 ≤ p.get x y) (hq : ∀ x y, 0 ≤ q.get x y) (x : Fin w)
    (y : Fin h) (i : Fin bandCount) :
    bandContrast floor (.of (.product t) p) (.of (.product t) q) x y i ≤
      (t 2 * t 2 * (t 2 * t 2))⁻¹ :=
  max_div_max_le (inv_nonneg.mpr (mul_pos hcentre hcentre).le) hfloor
    (change_le_surround ht hcentre hone hp x y i) (change_le_surround ht hcentre hone hq x y i)

theorem total_le {n : ℕ} {f : Fin n → K} {r : K} (hf : ∀ i, f i ≤ r) :
    (Vector.ofFn f).foldl (· + ·) 0 ≤ n * r := by
  have hmem : ∀ c ∈ List.ofFn f, c ≤ r := by
    intro c hc
    obtain ⟨i, rfl⟩ := (List.mem_ofFn' f c).mp hc
    exact hf i
  have hsum := List.sum_le_card_nsmul (List.ofFn f) r hmem
  rwa [List.length_ofFn, nsmul_eq_mul, List.sum_eq_foldl, ← Vector.toList_ofFn,
    Vector.foldl_toList] at hsum

end Quotient

/-- With weights that are not rounded, the contrasts of two pictures without negative luminances
have a bound that holds for every least surround and every range of luminances. -/
theorem contrasts_bounded {w h : ℕ} (floor : ℚ) (hfloor : 0 < floor) (p q : Plane ℚ w h)
    (hp : ∀ x y, 0 ≤ p.get x y) (hq : ∀ x y, 0 ≤ q.get x y) (x : Fin w) (y : Fin h) :
    (∀ r c, (Kernel.lowPass : Kernel ℚ).weight r c =
      Kernel.lowPassTaps r * Kernel.lowPassTaps c) ∧
    (∀ i, 0 ≤ bandContrast floor (.of Kernel.lowPass p) (.of Kernel.lowPass q) x y i ∧
      bandContrast floor (.of Kernel.lowPass p) (.of Kernel.lowPass q) x y i ≤ 625 / 16) ∧
    (Vector.ofFn (bandContrast floor (.of Kernel.lowPass p) (.of Kernel.lowPass q) x y)).foldl
      (· + ·) 0 ≤ 6 * (625 / 16) := by
  have hbound : (Kernel.lowPassTaps 2 * Kernel.lowPassTaps 2 *
      (Kernel.lowPassTaps 2 * Kernel.lowPassTaps 2))⁻¹ = 625 / 16 := by decide +kernel
  have hle (i : Fin bandCount) :
      bandContrast floor (.of Kernel.lowPass p) (.of Kernel.lowPass q) x y i ≤ 625 / 16 := by
    rw [Kernel.lowPass_eq_product, ← hbound]
    exact bandContrast_le averaging_lowPassTaps (by decide +kernel) (by decide +kernel) hfloor hp
      hq x y i
  exact ⟨Kernel.weight_lowPass, fun i => ⟨bandContrast_nonneg hfloor _ _ x y i, hle i⟩,
    total_le hle⟩

/-- One bright pixel in a dark row. -/
def spark : Plane ℚ 9 1 := .ofFn fun x _ => if x = 0 then 100 else 0

/-- The contrast of a bright pixel exceeds one, and keeps to the bound beside the dark as well. -/
theorem contrasts_of_spark_bounded :
    (∀ x y, 0 ≤ spark.get x y) ∧
    (∀ i, 0 ≤ bandContrast 1e-5 (.of Kernel.lowPass spark) (.of Kernel.lowPass (.fill 0)) 0 0 i ∧
      bandContrast 1e-5 (.of Kernel.lowPass spark) (.of Kernel.lowPass (.fill 0)) 0 0 i ≤
        625 / 16) ∧
    (Vector.ofFn (bandContrast 1e-5 (.of Kernel.lowPass spark) (.of Kernel.lowPass (.fill 0))
      0 0)).foldl (· + ·) 0 ≤ 6 * (625 / 16) ∧
    1 < bandContrast 1e-5 (.of Kernel.lowPass spark) (.of Kernel.lowPass (.fill 0)) 0 0
      (0 : Fin 6) := by
  have hspark : ∀ x y, 0 ≤ spark.get x y := by decide +kernel
  have hdark : ∀ x y, 0 ≤ (Plane.fill 0 : Plane ℚ 9 1).get x y := by decide +kernel
  obtain ⟨-, hbands, htotal⟩ :=
    contrasts_bounded 1e-5 (by norm_num) spark (.fill 0) hspark hdark 0 0
  exact ⟨hspark, hbands, htotal, by decide +kernel⟩

end VisibleDifference
