import Mathlib.Algebra.BigOperators.Intervals
import Mathlib.Tactic.Ring
import VisibleDifference.Proofs.Exact.Orientation
import VisibleDifference.Proofs.Locality

/-!
# Brightness

Folding a row back repeats the samples at its ends less often than the others, so a blur does not
keep the plain sum of a plane. It keeps the sum in which the samples at the ends of a row count
half: that is half the sum over one period of the row between its two mirrors, a smoothed row is
smoothed between the mirrors too, and a sum over a period does not depend on where the period
starts. Of a plane whose frame is dark the plain sum is kept for as many levels as the blur needs to
reach the border.
-/

namespace VisibleDifference

universe u

section Periods

variable {M : Type u} [AddCommGroup M] {f : ℤ → M} {n : ℕ}

theorem sum_period_succ (hf : Function.Periodic f n) (a : ℤ) :
    ∑ i ∈ Finset.range n, f (i + (a + 1)) = ∑ i ∈ Finset.range n, f (i + a) := by
  have hends : f (n + a) = f a := by rw [add_comm, hf]
  have hfront := Finset.sum_range_succ' (fun i : ℕ => f (i + a)) n
  rw [Finset.sum_range_succ, hends, Nat.cast_zero, zero_add, add_left_inj] at hfront
  rw [hfront]
  refine Finset.sum_congr rfl fun i _ => ?_
  rw [Nat.cast_succ, add_right_comm, add_assoc]

/-- All periods have the same sum, wherever they start. -/
theorem sum_period_add (hf : Function.Periodic f n) (a : ℤ) :
    ∑ i ∈ Finset.range n, f (i + a) = ∑ i ∈ Finset.range n, f i := by
  induction a with
  | zero => simp only [add_zero]
  | succ a ih => rw [sum_period_succ hf, ih]
  | pred a ih => rw [← ih, ← sum_period_succ hf, sub_add_cancel]

end Periods

section Continued

variable {R : Type u} {len : ℕ} [NeZero len]

/-- A row folded back at its ends. -/
def continued (f : Fin len → R) (i : ℤ) : R := f ⟨foldBack len i, foldBack_lt len.pos_of_neZero i⟩

theorem continued_val (f : Fin len → R) (x : Fin len) : continued f x.val = f x := by
  simp only [continued, foldBack_of_lt x.isLt]

theorem mirroredAtEnds_continued (f : Fin len → R) : MirroredAtEnds len (continued f) := by
  have hm := mirroredAtEnds_foldBack len
  constructor <;> intro i <;> simp only [continued, hm.first, hm.last]

variable [CommRing R] {t : Fin 5 → R}

/-- Between its mirrors a smoothed row is smooth, too. -/
theorem continued_smooth (ht : Palindromic t) (f : Fin len → R) (i : ℤ) :
    continued (smooth t f) i = ∑ c, t c * continued f (i + Plane.tapOffset c) := by
  have hf := mirroredAtEnds_continued f
  -- where the row reads the same in both directions, so does what the taps make of it
  have hreflect (a b : ℤ) (hab : ∀ d, continued f (a - d) = continued f (b + d)) :
      ∑ c, t c * continued f (a + Plane.tapOffset c) =
        ∑ c, t c * continued f (b + Plane.tapOffset c) := by
    rw [← Equiv.sum_comp Fin.revPerm]
    refine Finset.sum_congr rfl fun c _ => ?_
    rw [Fin.revPerm_apply, ht, tapOffset_rev, ← sub_eq_add_neg, hab]
  have hmirrors : MirroredAtEnds len
      fun i => ∑ c, t c * continued f (i + Plane.tapOffset c) := by
    constructor <;> intro i <;> apply hreflect <;> intro d
    · rw [← hf.first]
      congr 1
      omega
    · rw [← hf.last]
      congr 1
      omega
  have hone : len = 1 → ∀ i, ∑ c, t c * continued f (i + Plane.tapOffset c) =
      ∑ c, t c * continued f (0 + Plane.tapOffset c) := by
    rintro rfl i
    rfl
  exact (hmirrors.eq_foldBack hone len.pos_of_neZero i).symm

end Continued

section Rows

variable {len n : ℕ} {t : Fin 5 → ℚ}

/-- How much a sample of a row counts: half at the ends, unless it is the only one. -/
def endWeight (x : Fin len) : ℚ := if 2 ≤ len ∧ (x.val = 0 ∨ x.val = len - 1) then 1 / 2 else 1

theorem endWeight_eq_one {x : Fin len} (hx : 0 < x.val) (hl : x.val + 1 < len) :
    endWeight x = 1 := if_neg (by omega)

def rowBrightness (f : Fin len → ℚ) : ℚ := ∑ x, endWeight x * f x

theorem rowBrightness_comm (f : Fin len → Fin n → ℚ) :
    rowBrightness (fun x => rowBrightness (f x)) =
      rowBrightness fun y => rowBrightness fun x => f x y := by
  simp only [rowBrightness, Finset.mul_sum]
  rw [Finset.sum_comm]
  simp only [mul_left_comm]

/-- The two ends of a row and what lies between them. -/
theorem sum_ends (f : Fin (n + 2) → ℚ) :
    ∑ x, f x = f 0 + ∑ x : Fin n, f x.succ.castSucc + f (Fin.last (n + 1)) := by
  rw [Fin.sum_univ_castSucc, Fin.sum_univ_succ]
  rfl

theorem rowBrightness_one (f : Fin 1 → ℚ) : rowBrightness f = f 0 := by
  have hweight : endWeight (0 : Fin 1) = 1 := if_neg (by omega)
  rw [rowBrightness, Fin.sum_univ_one, hweight, one_mul]

theorem rowBrightness_ends (f : Fin (n + 2) → ℚ) :
    rowBrightness f =
      1 / 2 * f 0 + ∑ x : Fin n, f x.succ.castSucc + 1 / 2 * f (Fin.last (n + 1)) := by
  have hfirst : endWeight (0 : Fin (n + 2)) = 1 / 2 := if_pos ⟨by omega, .inl rfl⟩
  have hlast : endWeight (Fin.last (n + 1)) = 1 / 2 := if_pos ⟨by omega, .inr rfl⟩
  have hinner (x : Fin n) : endWeight x.succ.castSucc = 1 :=
    endWeight_eq_one (Nat.succ_pos x) (Nat.succ_lt_succ (Nat.succ_lt_succ x.isLt))
  simp only [rowBrightness, sum_ends, hfirst, hlast, hinner, one_mul]

/-- A period goes through the row and back, which shows its ends once and all else twice. -/
theorem two_mul_rowBrightness (f : Fin (n + 2) → ℚ) :
    2 * rowBrightness f = ∑ i ∈ Finset.range (2 * n + 2), continued f i := by
  have hthere : ∑ i ∈ Finset.range (n + 2), continued f i = ∑ x, f x := by
    rw [Finset.sum_range]
    exact Finset.sum_congr rfl fun x _ => continued_val f x
  have hback : ∑ i ∈ Finset.range n, continued f (n + 2 + i : ℕ) =
      ∑ x : Fin n, f x.succ.castSucc := by
    rw [← Finset.sum_range_reflect, Finset.sum_range]
    refine Finset.sum_congr rfl fun x _ => ?_
    have hmirror : (2 * ((n + 2 : ℕ) - 1) - (n + 2 + (n - 1 - x.val) : ℕ) : ℤ) =
        x.succ.castSucc.val := by
      have hx := x.isLt
      rw [Fin.val_castSucc, Fin.val_succ]
      omega
    rw [← (mirroredAtEnds_continued f).last, hmirror, continued_val]
  have hsplit : 2 * n + 2 = (n + 2) + n := by omega
  rw [hsplit, Finset.sum_range_add, hthere, hback, sum_ends, rowBrightness_ends]
  ring

theorem periodic_continued (f : Fin (n + 2) → ℚ) :
    Function.Periodic (continued f) ((2 * n + 2 : ℕ) : ℤ) := by
  have hlength : ((2 * n + 2 : ℕ) : ℤ) = 2 * (((n + 2 : ℕ) : ℤ) - 1) := by omega
  rw [hlength]
  exact (mirroredAtEnds_continued f).periodic

/-- Smoothing a row multiplies its brightness by the sum of the taps. -/
theorem rowBrightness_smooth (ht : Palindromic t) (f : Fin len → ℚ) :
    rowBrightness (smooth t f) = (∑ c, t c) * rowBrightness f := by
  match len, f with
  | 0, f => simp [rowBrightness]
  | 1, f =>
    rw [rowBrightness_one, rowBrightness_one, smooth, Finset.sum_mul]
    rfl
  | n + 2, f =>
    apply mul_left_cancel₀ (two_ne_zero (α := ℚ))
    calc 2 * rowBrightness (smooth t f)
        = ∑ i ∈ Finset.range (2 * n + 2), ∑ c, t c * continued f (i + Plane.tapOffset c) := by
          rw [two_mul_rowBrightness]
          exact Finset.sum_congr rfl fun i _ => continued_smooth ht f i
      _ = ∑ c, t c * ∑ i ∈ Finset.range (2 * n + 2), continued f (i + Plane.tapOffset c) := by
          rw [Finset.sum_comm]
          simp only [Finset.mul_sum]
      _ = (∑ c, t c) * (2 * rowBrightness f) := by
          simp only [sum_period_add (periodic_continued f), two_mul_rowBrightness, Finset.sum_mul]
      _ = 2 * ((∑ c, t c) * rowBrightness f) := mul_left_comm _ _ _

end Rows

namespace Plane

variable {w h : ℕ}

/-- The sum in which pixels at a side count half, and those at a corner a quarter. -/
def brightness (p : Plane ℚ w h) : ℚ := ∑ x, ∑ y, endWeight x * endWeight y * p.get x y

def total (p : Plane ℚ w h) : ℚ := ∑ x, ∑ y, p.get x y

theorem brightness_eq_rows (p : Plane ℚ w h) :
    p.brightness = rowBrightness fun x => rowBrightness fun y => p.get x y := by
  simp only [brightness, rowBrightness, Finset.mul_sum, mul_assoc]

/-- A blur whose taps sum to one keeps the brightness. -/
theorem brightness_blur {t : Fin 5 → ℚ} (ht : Palindromic t) (hone : ∑ c, t c = 1)
    (p : Plane ℚ w h) : (p.blur (.product t)).brightness = p.brightness := by
  have hkept {len : ℕ} (f : Fin len → ℚ) : rowBrightness (smooth t f) = rowBrightness f := by
    rw [rowBrightness_smooth ht, hone, one_mul]
  calc (p.blur (.product t)).brightness
      = rowBrightness fun x =>
          rowBrightness (smooth t fun y => smooth t (fun x' => p.get x' y) x) := by
        simp only [brightness_eq_rows, get_blur, tapSum_product]
    _ = rowBrightness fun x => rowBrightness fun y => smooth t (fun x' => p.get x' y) x := by
        simp only [hkept]
    _ = rowBrightness fun y => rowBrightness (smooth t fun x => p.get x y) :=
        rowBrightness_comm _
    _ = p.brightness := by
        simp only [hkept]
        rw [← rowBrightness_comm, brightness_eq_rows]

/-- The outermost `r` rows and columns vanish. -/
def DarkFrame (r : ℕ) (p : Plane ℚ w h) : Prop :=
  ∀ (x : Fin w) (y : Fin h),
    x.val < r ∨ w ≤ x.val + r ∨ y.val < r ∨ h ≤ y.val + r → p.get x y = 0

instance (r : ℕ) (p : Plane ℚ w h) : Decidable (p.DarkFrame r) :=
  inferInstanceAs (Decidable (∀ _, _))

namespace DarkFrame

variable {r : ℕ} {p : Plane ℚ w h}

theorem brightness_eq (hd : p.DarkFrame 1) : p.brightness = p.total := by
  refine Finset.sum_congr rfl fun x _ => Finset.sum_congr rfl fun y _ => ?_
  by_cases hframe : x.val < 1 ∨ w ≤ x.val + 1 ∨ y.val < 1 ∨ h ≤ y.val + 1
  · rw [hd x y hframe, mul_zero]
  · have hx : endWeight x = 1 := endWeight_eq_one (by omega) (by omega)
    have hy : endWeight y = 1 := endWeight_eq_one (by omega) (by omega)
    rw [hx, hy, one_mul, one_mul]

/-- A blur lights up two rows and columns of the frame at most. -/
theorem blur (k : Kernel ℚ) (hd : p.DarkFrame (r + 2)) : (p.blur k).DarkFrame r := by
  intro x y hframe
  rw [get_blur, tapSum_eq_sum]
  refine Finset.sum_eq_zero fun i _ => Finset.sum_eq_zero fun c _ => ?_
  obtain ⟨hx, hx'⟩ := (neighbour_within x (tapOffset c)).mono (tapOffset_natAbs_le c)
  obtain ⟨hy, hy'⟩ := (neighbour_within y (tapOffset i)).mono (tapOffset_natAbs_le i)
  rw [hd _ _ (by omega), mul_zero]

theorem iterate (k : Kernel ℚ) (n : ℕ) (hd : p.DarkFrame (r + 2 * n)) :
    ((Plane.blur k)^[n] p).DarkFrame r := by
  induction n generalizing r with
  | zero => exact hd
  | succ n ih =>
    rw [Function.iterate_succ_apply']
    apply blur
    apply ih
    rwa [show r + 2 + 2 * n = r + 2 * (n + 1) by ring]

end DarkFrame

end Plane

namespace Pyramid

variable {w h : ℕ}

/-- With weights that are not rounded, all levels are as bright as the source; and if its frame is
dark as far as level `l` reaches, one row and column more, that level has the same plain sum. -/
theorem levels_are_equally_bright (p : Plane ℚ w h) :
    (∀ r c, (Kernel.lowPass : Kernel ℚ).weight r c =
      Kernel.lowPassTaps r * Kernel.lowPassTaps c) ∧
    ∀ l, ((of Kernel.lowPass p).level l).brightness = p.brightness ∧
      (p.DarkFrame (1 + 2 * l.val) → ((of Kernel.lowPass p).level l).total = p.total) := by
  have hkept : Function.Semiconj Plane.brightness
      (Plane.blur (w := w) (h := h) Kernel.lowPass) id := by
    rw [Kernel.lowPass_eq_product]
    exact Plane.brightness_blur palindromic_lowPassTaps Kernel.sum_lowPassTaps
  have hbright (l : Fin levelCount) :
      ((of Kernel.lowPass p).level l).brightness = p.brightness := by
    rw [level_eq_iterate, hkept.iterate_right, Function.iterate_id, id]
  refine ⟨Kernel.weight_lowPass, fun l => ⟨hbright l, fun hd => ?_⟩⟩
  have hlevel : ((of Kernel.lowPass p).level l).DarkFrame 1 := by
    rw [level_eq_iterate]
    exact hd.iterate _ _
  have hsource : p.DarkFrame 1 := fun x y hframe => hd x y (by omega)
  rw [← hlevel.brightness_eq, hbright, hsource.brightness_eq]

/-- Seven by seven, dark but for the middle. -/
def litCentre : Plane ℚ 7 7 := (Plane.fill 0).set 3 3 1

/-- The light of the middle is spread, and none is lost. -/
theorem light_of_the_middle_is_kept :
    litCentre.DarkFrame 3 ∧ ((of Kernel.lowPass litCentre).level 1).total = 1 ∧
      (of Kernel.lowPass litCentre).value 1 1 1 = 1 / 400 := by
  have hd : litCentre.DarkFrame 3 := by decide +kernel
  have ht : litCentre.total = 1 := by decide +kernel
  have hlevel := ((levels_are_equally_bright litCentre).2 1).2 hd
  exact ⟨hd, hlevel.trans ht, by decide +kernel⟩

end Pyramid

end VisibleDifference
