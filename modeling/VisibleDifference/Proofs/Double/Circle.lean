import VisibleDifference.Proofs.Single.Reading
import VisibleDifference.FixedPoint.Circle

/-!
# Sine and cosine in fixed point

The alternating series are summed with terms that are rounded down twice. What is lost of one term
is less than doubled in the next one, so that 64 terms of 384 bits leave more than 250 correct bits
for angles up to `8 / 5`; the terms left out are far smaller than that.
-/

namespace VisibleDifference.FixedPoint

def scale : ℕ := 2 ^ circleBits

theorem scale_pos : 0 < scale := Nat.two_pow_pos _

/-- What a fixed-point number of the circle stands for. -/
noncomputable def angle (n : ℤ) : ℝ := n / scale

/-- The smallest fixed-point number. -/
noncomputable def unit : ℝ := 1 / scale

theorem unit_pos : 0 < unit := one_div_pos.mpr (Nat.cast_pos.mpr scale_pos)

theorem angle_eq (n : ℤ) : angle n = n * unit := div_eq_mul_one_div _ _

/-- The series without rounding, `t - t * s / ((k + 1) * (k + 2)) + …`. -/
noncomputable def series (s : ℝ) : ℕ → ℕ → ℝ → ℝ
  | 0, _, _ => 0
  | n + 1, k, t => t - series s n (k + 2) (t * s / ((k + 1) * (k + 2) : ℕ))

section Rounding

variable {square term k : ℕ} {s t a : ℝ}

theorem lt_div_add_one (m n : ℕ) : (m : ℝ) / n < (m / n : ℕ) + 1 := by
  rw [← Nat.floor_div_eq_div (K := ℝ)]
  exact Nat.lt_floor_add_one _

/-- A fixed-point number that is at most `a` below `t`. -/
structure Below (term : ℕ) (t a : ℝ) : Prop where
  low : t - a ≤ angle term
  high : angle term ≤ t

theorem angle_nonneg (n : ℕ) : 0 ≤ angle n :=
  div_nonneg (Nat.cast_nonneg n) (Nat.cast_nonneg scale)

/-- The next term is rounded down when it is scaled and once more when it is divided. -/
theorem below_next (ht : Below term t a) (hs : Below square s unit) (hk : t ≤ k + 1)
    (hs' : s ≤ 3) :
    Below (((term * square) >>> circleBits) / ((k + 1) * (k + 2)))
      (t * s / ((k + 1) * (k + 2) : ℕ)) (3 / 2 * a + 3 * unit) := by
  obtain ⟨c, hc⟩ : ∃ c, c = angle term := ⟨_, rfl⟩
  obtain ⟨v, hv⟩ : ∃ v, v = angle square := ⟨_, rfl⟩
  obtain ⟨p, hp⟩ : ∃ p, p = term * square / scale := ⟨_, rfl⟩
  obtain ⟨d, hd⟩ : ∃ d, d = (k + 1) * (k + 2) := ⟨_, rfl⟩
  have hunit := unit_pos
  have hd' : ((k : ℝ) + 1) * (k + 2) = d := by rw [hd]; push_cast; ring
  have hkpos : (0 : ℝ) ≤ k := Nat.cast_nonneg k
  have hdpos : (0 : ℝ) < d := by rw [← hd']; positivity
  have hcpos : 0 ≤ c := hc ▸ angle_nonneg term
  have hvpos : 0 ≤ v := hv ▸ angle_nonneg square
  have hscale : (scale : ℝ) * unit = 1 := mul_one_div_cancel (Nat.cast_pos.mpr scale_pos).ne'
  have hproduct : ((term * square : ℕ) : ℝ) / scale * unit = c * v := by
    rw [hc, hv, angle_eq, angle_eq, div_eq_mul_one_div, ← unit]
    push_cast
    ring
  have hplow := mul_lt_mul_of_pos_right (lt_div_add_one (term * square) scale) hunit
  have hphigh : (p : ℝ) * unit ≤ c * v := by
    rw [hp, ← hproduct]
    exact mul_le_mul_of_nonneg_right Nat.cast_div_le hunit.le
  have hqlow := mul_lt_mul_of_pos_right (lt_div_add_one p d) hunit
  have hqhigh : ((p / d : ℕ) : ℝ) * unit ≤ p / d * unit :=
    mul_le_mul_of_nonneg_right Nat.cast_div_le hunit.le
  rw [hproduct, ← hp] at hplow
  obtain ⟨htlow, hthigh⟩ := ht
  obtain ⟨hslow, hshigh⟩ := hs
  rw [← hc] at htlow hthigh
  rw [← hv] at hslow hshigh
  rw [Nat.shiftRight_eq_div_pow, ← scale, ← hp, ← hd]
  have ha : 0 ≤ a := by linarith
  constructor
  · have hdk : (k : ℝ) + 2 ≤ d := by
      rw [← hd']
      exact le_mul_of_one_le_left (by positivity) (by linarith)
    have hd2 : (2 : ℝ) ≤ d := by linarith
    have hlost : t * s - c * v ≤ 3 * a + (k + 1) * unit := by
      have hterm : (t - c) * s ≤ a * 3 := mul_le_mul (by linarith) hs' (by linarith) ha
      have hsquare : c * (s - v) ≤ (k + 1) * unit :=
        mul_le_mul (by linarith) (by linarith) (by linarith) (by linarith)
      linarith
    have hquotient : (p : ℝ) * unit - unit * d < (p / d : ℕ) * unit * d := by
      have h := mul_lt_mul_of_pos_right hqlow hdpos
      have hp : (p : ℝ) / d * unit * d = p * unit := by field_simp
      linarith
    rw [angle_eq, Int.cast_natCast, sub_le_iff_le_add, div_le_iff₀ hdpos]
    have hspread : 3 * a ≤ 3 / 2 * a * d := by
      linarith [mul_le_mul_of_nonneg_left hd2 ha]
    have hrounded : (k + 2) * unit ≤ 2 * unit * d := by
      linarith [mul_le_mul_of_nonneg_left hdk hunit.le, mul_pos hunit hdpos]
    linarith
  · calc angle (p / d : ℕ) = (p / d : ℕ) * unit := angle_eq _
      _ ≤ p / d * unit := hqhigh
      _ = p * unit / d := by ring
      _ ≤ t * s / d := by
        have hle : c * v ≤ t * s := mul_le_mul hthigh hshigh hvpos (by linarith)
        exact div_le_div_of_nonneg_right (hphigh.trans hle) hdpos.le

/-- What the sum of the rounded terms loses, at most. -/
theorem alternating_near (hs : Below square s unit) (hs' : s ≤ 3) (n : ℕ) (ht : Below term t a)
    (hk : t ≤ k + 1) :
    |angle (alternating square n k term) - series s n k t| ≤ (a + 6 * unit) * 3 ^ n := by
  have hunit := unit_pos
  induction n generalizing k term t a with
  | zero =>
    have ha : 0 ≤ a := by linarith [ht.low, ht.high]
    simp only [alternating, series, angle, Int.cast_zero, zero_div, sub_zero, abs_zero]
    positivity
  | succ n ih =>
    have ha : 0 ≤ a := by linarith [ht.low, ht.high]
    have hnext := below_next ht hs hk hs'
    have hbound : t * s / ((k + 1) * (k + 2) : ℕ) ≤ (k + 2 : ℕ) + 1 := by
      have hkpos : (0 : ℝ) ≤ k := Nat.cast_nonneg k
      have hspos : 0 ≤ s := (angle_nonneg square).trans hs.high
      have hproduct : t * s ≤ (k + 1) * 3 := mul_le_mul hk hs' hspos (by linarith)
      have hthree : (3 : ℝ) ≤ (k + 3) * (k + 2) := by linarith [mul_nonneg hkpos hkpos]
      have hstep := mul_le_mul_of_nonneg_left hthree (show (0 : ℝ) ≤ k + 1 by positivity)
      push_cast
      rw [div_le_iff₀ (by positivity)]
      linarith
    have hrest := ih hnext hbound
    rw [alternating, series]
    have hangle : angle ((term : ℤ) -
        alternating square n (k + 2) (((term * square) >>> circleBits) / ((k + 1) * (k + 2)))) =
        angle term - angle (alternating square n (k + 2)
          (((term * square) >>> circleBits) / ((k + 1) * (k + 2)))) := by
      simp only [angle, Int.cast_sub, sub_div]
    have hterm : |angle term - t| ≤ a := abs_le.mpr ⟨by linarith [ht.low], by linarith [ht.high]⟩
    have hpow : (1 : ℝ) ≤ 3 ^ n := one_le_pow₀ (by norm_num)
    rw [hangle]
    calc _ = |(angle term - t) - (angle (alternating square n (k + 2)
              (((term * square) >>> circleBits) / ((k + 1) * (k + 2)))) -
            series s n (k + 2) (t * s / ((k + 1) * (k + 2) : ℕ)))| := by congr 1; ring
      _ ≤ |angle term - t| + _ := abs_sub _ _
      _ ≤ a + (3 / 2 * a + 3 * unit + 6 * unit) * 3 ^ n := add_le_add hterm hrest
      _ ≤ (a + 6 * unit) * 3 ^ (n + 1) := by
        rw [pow_succ]
        linarith [mul_le_mul_of_nonneg_left hpow ha, mul_le_mul_of_nonneg_left hpow hunit.le]

end Rounding

section Taylor

variable {x : ℝ}

theorem series_eq_sum (x : ℝ) (n k : ℕ) :
    series (x ^ 2) n k (x ^ k / k.factorial) =
      ∑ j ∈ Finset.range n, (-1) ^ j * (x ^ (k + 2 * j) / (k + 2 * j).factorial) := by
  induction n generalizing k with
  | zero => rfl
  | succ n ih =>
    have hnext : x ^ k / k.factorial * x ^ 2 / ((k + 1) * (k + 2) : ℕ) =
        x ^ (k + 2) / (k + 2).factorial := by
      rw [Nat.factorial_succ, Nat.factorial_succ]
      push_cast
      field_simp
      ring
    rw [series, hnext, ih, Finset.sum_range_succ', sub_eq_add_neg, ← Finset.sum_neg_distrib,
      add_comm]
    congr 1
    · refine Finset.sum_congr rfl fun j _ => ?_
      have hplace : k + 2 + 2 * j = k + 2 * (j + 1) := by ring
      rw [hplace, pow_succ]
      ring
    · simp

/-- The exponential series of an imaginary number, by real and imaginary parts. -/
theorem sum_imaginary (x : ℝ) (n : ℕ) :
    ∑ m ∈ Finset.range (2 * n), ((x : ℂ) * Complex.I) ^ m / (m.factorial : ℂ) =
      (series (x ^ 2) n 0 1 : ℝ) + (series (x ^ 2) n 1 x : ℝ) * Complex.I := by
  have hcos := series_eq_sum x n 0
  have hsin := series_eq_sum x n 1
  simp only [pow_zero, Nat.factorial, Nat.cast_one, div_one, pow_one, mul_one,
    zero_add] at hcos hsin
  rw [hcos, hsin]
  clear hcos hsin
  induction n with
  | zero => simp
  | succ n ih =>
    have heven : ((x : ℂ) * Complex.I) ^ (2 * n) = (-1) ^ n * x ^ (2 * n) := by
      rw [mul_pow, pow_mul Complex.I, Complex.I_sq]
      ring
    have hodd : ((x : ℂ) * Complex.I) ^ (2 * n + 1) =
        (-1) ^ n * x ^ (2 * n + 1) * Complex.I := by
      rw [pow_succ, heven]
      ring
    rw [mul_add_one, Finset.sum_range_succ, Finset.sum_range_succ, ih, heven, hodd,
      Finset.sum_range_succ, Finset.sum_range_succ, add_comm 1]
    push_cast
    ring

theorem remainder_le (hx : 0 ≤ x) (hx' : x ≤ 8 / 5) :
    x ^ 128 / (Nat.factorial 128) * 2 ≤ unit := by
  have hpow : x ^ 128 ≤ 2 ^ 128 := pow_le_pow_left₀ hx (by linarith) 128
  have hbound : 2 ^ 128 * 2 * scale ≤ Nat.factorial 128 := by decide +kernel
  -- the factorial is named, so that no tactic computes it
  generalize Nat.factorial 128 = c at hbound ⊢
  have hfactorial : (2 : ℝ) ^ 128 * 2 * scale ≤ c := by exact_mod_cast hbound
  have hpos : (0 : ℝ) < scale := Nat.cast_pos.mpr scale_pos
  have hc : (0 : ℝ) < c := lt_of_lt_of_le (by positivity) hfactorial
  rw [unit, div_mul_eq_mul_div, div_le_div_iff₀ hc hpos, one_mul]
  exact (by gcongr : x ^ 128 * 2 * scale ≤ 2 ^ 128 * 2 * scale).trans hfactorial

theorem taylor_near (hx : 0 ≤ x) (hx' : x ≤ 8 / 5) :
    |series (x ^ 2) 64 0 1 - Real.cos x| ≤ unit ∧ |series (x ^ 2) 64 1 x - Real.sin x| ≤ unit := by
  have hnorm : ‖(x : ℂ) * Complex.I‖ = x := by
    rw [norm_mul, Complex.norm_I, mul_one, Complex.norm_real, Real.norm_of_nonneg hx]
  have hsmall : ‖(x : ℂ) * Complex.I‖ / (128 : ℕ).succ ≤ 1 / 2 := by
    rw [hnorm, div_le_iff₀ (by positivity)]
    norm_num
    linarith
  have hbound := Complex.exp_bound' hsmall
  rw [hnorm, Complex.exp_mul_I, ← Complex.ofReal_cos, ← Complex.ofReal_sin,
    show Finset.range 128 = Finset.range (2 * 64) from rfl, sum_imaginary] at hbound
  have hdifference := hbound.trans (remainder_le hx hx')
  obtain ⟨z, hz⟩ : ∃ z : ℂ, z = (Real.cos x : ℂ) + Real.sin x * Complex.I -
    ((series (x ^ 2) 64 0 1 : ℝ) + (series (x ^ 2) 64 1 x : ℝ) * Complex.I) := ⟨_, rfl⟩
  rw [← hz] at hdifference
  have hre : z.re = Real.cos x - series (x ^ 2) 64 0 1 := by simp [hz, Complex.cos_ofReal_re]
  have him : z.im = Real.sin x - series (x ^ 2) 64 1 x := by simp [hz, Complex.sin_ofReal_re]
  constructor
  · rw [abs_sub_comm, ← hre]
    exact (Complex.abs_re_le_norm z).trans hdifference
  · rw [abs_sub_comm, ← him]
    exact (Complex.abs_im_le_norm z).trans hdifference

end Taylor

section Angles

variable {r : ℕ}

theorem unit_eq : unit = 2 ^ (-384 : ℤ) := by
  rw [unit, scale, Nat.cast_pow, zpow_neg, one_div]
  rfl

theorem angle_scale : angle scale = 1 := div_self (Nat.cast_pos.mpr scale_pos).ne'

theorem below_square (r : ℕ) : Below ((r * r) >>> circleBits) (angle r ^ 2) unit := by
  have hunit := unit_pos
  have hproduct : ((r * r : ℕ) : ℝ) / scale * unit = angle r ^ 2 := by
    rw [angle, unit]
    push_cast
    ring
  have hlow := mul_lt_mul_of_pos_right (lt_div_add_one (r * r) scale) hunit
  have hhigh : ((r * r / scale : ℕ) : ℝ) * unit ≤ (r * r : ℕ) / scale * unit :=
    mul_le_mul_of_nonneg_right Nat.cast_div_le hunit.le
  rw [hproduct] at hlow hhigh
  rw [Nat.shiftRight_eq_div_pow, ← scale]
  constructor
  · rw [angle_eq ((r * r / scale : ℕ) : ℤ), Int.cast_natCast]
    linarith
  · rwa [angle_eq ((r * r / scale : ℕ) : ℤ), Int.cast_natCast]

/-- The rounding of the terms and the terms left out. -/
theorem loss_le : (0 + 6 * unit) * 3 ^ 64 + unit ≤ 2 ^ (-256 : ℤ) := by
  have hunit : unit * 2 ^ (128 : ℤ) = 2 ^ (-256 : ℤ) := by
    rw [unit_eq, ← zpow_add₀ two_ne_zero]
    norm_num
  have hcount : (6 * 3 ^ 64 + 1 : ℝ) ≤ 2 ^ (128 : ℤ) := by norm_num
  calc (0 + 6 * unit) * 3 ^ 64 + unit = unit * (6 * 3 ^ 64 + 1) := by ring
    _ ≤ unit * 2 ^ (128 : ℤ) := mul_le_mul_of_nonneg_left hcount unit_pos.le
    _ = 2 ^ (-256 : ℤ) := hunit

variable (hr : angle r ≤ 8 / 5)

include hr

theorem square_le : angle r ^ 2 ≤ 3 := by nlinarith [angle_nonneg r]

theorem cosine_near : |angle (cosine r) - Real.cos (angle r)| ≤ 2 ^ (-256 : ℤ) := by
  have hterm : Below (1 <<< circleBits) 1 0 := by
    rw [Nat.one_shiftLeft, ← scale]
    exact ⟨by rw [angle_scale, sub_zero], angle_scale.le⟩
  have hsum := alternating_near (below_square r) (square_le hr) 64 hterm (k := 0) (by norm_num)
  have htaylor := (taylor_near (angle_nonneg r) hr).1
  calc _ ≤ |angle (cosine r) - series (angle r ^ 2) 64 0 1| + _ := abs_sub_le _ _ _
    _ ≤ (0 + 6 * unit) * 3 ^ 64 + unit := add_le_add hsum htaylor
    _ ≤ 2 ^ (-256 : ℤ) := loss_le

theorem sine_near : |angle (sine r) - Real.sin (angle r)| ≤ 2 ^ (-256 : ℤ) := by
  have hterm : Below r (angle r) 0 := ⟨by rw [sub_zero], le_rfl⟩
  have hsum := alternating_near (below_square r) (square_le hr) 64 hterm (k := 1)
    (by push_cast; linarith)
  have htaylor := (taylor_near (angle_nonneg r) hr).2
  calc _ ≤ |angle (sine r) - series (angle r ^ 2) 64 1 (angle r)| + _ := abs_sub_le _ _ _
    _ ≤ (0 + 6 * unit) * 3 ^ 64 + unit := add_le_add hsum htaylor
    _ ≤ 2 ^ (-256 : ℤ) := loss_le

end Angles

end VisibleDifference.FixedPoint
