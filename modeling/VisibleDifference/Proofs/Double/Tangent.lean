import VisibleDifference.Binary.Angle
import VisibleDifference.Proofs.Double.Circle
import VisibleDifference.Proofs.Double.Rounding
import VisibleDifference.Proofs.Single.Series

/-!
# The tangent in double precision

Errors are counted in roundings, each of them a factor close to one. The tangent of an angle below
a right angle is computed up to four of them. It grows at least in proportion to the angle, so that
two angles that are some roundings apart have tangents that are as many apart.
-/

namespace VisibleDifference.Binary

open Real (sin cos tan)

variable {x y : Float} {k l m n : ℕ} {p q r s : ℝ}

section Closeness

/-- A factor that no single rounding exceeds. -/
noncomputable def grain : ℝ := 1 + 1 / (2 ^ 52 : ℕ)

theorem one_le_grain : 1 ≤ grain := by norm_num [grain]

theorem grain_le_two : grain ≤ 2 := by norm_num [grain]

theorem grain_pos : 0 < grain := one_pos.trans_le one_le_grain

/-- Equal up to `n` roundings. -/
structure Close (n : ℕ) (p q : ℝ) : Prop where
  le : p ≤ q * grain ^ n
  ge : q ≤ p * grain ^ n

namespace Close

theorem refl (p : ℝ) : Close 0 p p := ⟨by simp, by simp⟩

theorem symm (h : Close n p q) : Close n q p := ⟨h.ge, h.le⟩

theorem trans (h : Close m p q) (h' : Close n q r) : Close (m + n) p r := by
  have hm : 0 ≤ grain ^ m := pow_nonneg grain_pos.le m
  have hn : 0 ≤ grain ^ n := pow_nonneg grain_pos.le n
  constructor
  · calc p ≤ q * grain ^ m := h.le
      _ ≤ r * grain ^ n * grain ^ m := mul_le_mul_of_nonneg_right h'.le hm
      _ = r * grain ^ (m + n) := by ring
  · calc r ≤ q * grain ^ n := h'.ge
      _ ≤ p * grain ^ m * grain ^ n := mul_le_mul_of_nonneg_right h.ge hn
      _ = p * grain ^ (m + n) := by ring

theorem mono (h : Close m p q) (hp : 0 ≤ p) (hq : 0 ≤ q) (hmn : m ≤ n) : Close n p q := by
  have hpow := pow_le_pow_right₀ one_le_grain hmn
  exact ⟨h.le.trans (mul_le_mul_of_nonneg_left hpow hq),
    h.ge.trans (mul_le_mul_of_nonneg_left hpow hp)⟩

theorem mul_right (h : Close n p q) (hr : 0 ≤ r) : Close n (p * r) (q * r) := by
  constructor
  · rw [mul_right_comm]
    exact mul_le_mul_of_nonneg_right h.le hr
  · rw [mul_right_comm]
    exact mul_le_mul_of_nonneg_right h.ge hr

theorem mul (h : Close m p q) (h' : Close n r s) (hq : 0 ≤ q) (hr : 0 ≤ r) :
    Close (m + n) (p * r) (q * s) := by
  have hleft := h.mul_right hr
  have hright := h'.mul_right hq
  rw [mul_comm r, mul_comm s] at hright
  exact hleft.trans hright

theorem inv (h : Close n p q) (hp : 0 < p) (hq : 0 < q) : Close n p⁻¹ q⁻¹ := by
  have hpow : 0 < grain ^ n := pow_pos grain_pos n
  constructor
  · rw [inv_mul_eq_div, le_div_iff₀ hq, inv_mul_eq_div, div_le_iff₀ hp, mul_comm]
    exact h.ge
  · rw [inv_mul_eq_div, le_div_iff₀ hp, inv_mul_eq_div, div_le_iff₀ hq, mul_comm]
    exact h.le

/-- What is `2 * k` roundings farther apart stays apart after `k` roundings of each. -/
theorem apart (hp : Close k p q) (hr : Close k r s) (h : q * grain ^ (n + 2 * k) ≤ s) :
    p * grain ^ n ≤ r := by
  have hk : 0 < grain ^ k := pow_pos grain_pos k
  have hn : 0 ≤ grain ^ n := pow_nonneg grain_pos.le n
  refine le_of_mul_le_mul_right ?_ hk
  calc p * grain ^ n * grain ^ k ≤ q * grain ^ k * grain ^ n * grain ^ k := by
        exact mul_le_mul_of_nonneg_right (mul_le_mul_of_nonneg_right hp.le hn) hk.le
    _ = q * grain ^ (n + 2 * k) := by ring
    _ ≤ s := h
    _ ≤ r * grain ^ k := hr.ge

end Close

theorem close_of_near (hq : 0 ≤ q) (h : |p - q| ≤ q * 2 ^ (-53 : ℤ)) : Close 1 p q := by
  obtain ⟨hlow, hhigh⟩ := abs_le.mp h
  norm_num at hlow hhigh
  constructor
  · norm_num [grain]
    linarith
  · norm_num [grain]
    linarith

/-- A size between `2 ^ -n` and `2 ^ n`. -/
structure Sized (n : ℕ) (q : ℝ) : Prop where
  low : 1 ≤ q * 2 ^ n
  high : q ≤ 2 ^ n

namespace Sized

theorem pos (h : Sized n q) : 0 < q := by
  have hpow : (0 : ℝ) < 2 ^ n := by positivity
  exact pos_of_mul_pos_left (one_pos.trans_le h.low) hpow.le

theorem mono (h : Sized m q) (hmn : m ≤ n) : Sized n q := by
  have hpow : (2 : ℝ) ^ m ≤ 2 ^ n := pow_le_pow_right₀ one_le_two hmn
  exact ⟨h.low.trans (mul_le_mul_of_nonneg_left hpow h.pos.le), h.high.trans hpow⟩

theorem mul (h : Sized m p) (h' : Sized n q) : Sized (m + n) (p * q) := by
  constructor
  · calc (1 : ℝ) ≤ (p * 2 ^ m) * (q * 2 ^ n) := one_le_mul_of_one_le_of_one_le h.low h'.low
      _ = p * q * 2 ^ (m + n) := by ring
  · rw [pow_add]
    exact mul_le_mul h.high h'.high h'.pos.le (by positivity)

theorem close (h : Sized n q) (hp : Close k p q) : Sized (n + k) p := by
  have hk : grain ^ k ≤ 2 ^ k := pow_le_pow_left₀ grain_pos.le grain_le_two k
  have hpos : 0 ≤ p := by
    have hpow : 0 < grain ^ k := pow_pos grain_pos k
    exact (pos_of_mul_pos_left (h.pos.trans_le hp.ge) hpow.le).le
  constructor
  · calc (1 : ℝ) ≤ q * 2 ^ n := h.low
      _ ≤ p * 2 ^ k * 2 ^ n := by
        gcongr
        exact hp.ge.trans (mul_le_mul_of_nonneg_left hk hpos)
      _ = p * 2 ^ (n + k) := by ring
  · calc p ≤ q * grain ^ k := hp.le
      _ ≤ 2 ^ n * 2 ^ k := mul_le_mul h.high hk (pow_nonneg grain_pos.le k) (by positivity)
      _ = 2 ^ (n + k) := (pow_add _ _ _).symm

theorem ordinary (h : Sized n q) (hn : n ≤ 1000) : Ordinary q := by
  have hpow : (2 : ℝ) ^ n ≤ 2 ^ (1000 : ℤ) := by
    rw [← zpow_natCast]
    exact zpow_le_zpow_right₀ one_le_two (by omega)
  constructor
  · rw [zpow_neg, inv_le_iff_one_le_mul₀ (by positivity)]
    exact h.low.trans (mul_le_mul_of_nonneg_left hpow h.pos.le)
  · exact h.high.trans hpow

end Sized

/-- A number that is `q` up to `k` roundings, with a bound of its size. -/
def Carries (x : Float) (q : ℝ) (k n : ℕ) : Prop := ∃ p, Stands x p ∧ Close k p q ∧ Sized n p

theorem StandsNear.carries (h : StandsNear x q) (hq : Sized n q) : Carries x q 1 (n + 1) := by
  obtain ⟨p, hp, hnear⟩ := h
  have hclose := close_of_near hq.pos.le hnear
  exact ⟨p, hp, hclose, hq.close hclose⟩

theorem Carries.pos (h : Carries x q k n) : 0 < q := by
  obtain ⟨p, -, hclose, hsized⟩ := h
  exact (hsized.close hclose.symm).pos

theorem Carries.mono (h : Carries x q k m) (hkl : k ≤ l) (hmn : m ≤ n) : Carries x q l n := by
  have hq := h.pos
  obtain ⟨p, hp, hclose, hsized⟩ := h
  exact ⟨p, hp, hclose.mono hsized.pos.le hq.le hkl, hsized.mono hmn⟩

theorem Carries.trans (h : Carries x p k n) (h' : Close l p q) : Carries x q (k + l) n := by
  obtain ⟨r, hr, hclose, hsized⟩ := h
  exact ⟨r, hr, hclose.trans h', hsized⟩

theorem Carries.mul (hx : Carries x p k m) (hy : Carries y q l n) (h : m + n ≤ 1000) :
    Carries (x * y) (p * q) (1 + (k + l)) (m + n + 1) := by
  have hp := hx.pos
  obtain ⟨r, hr, hclose, hsized⟩ := hx
  obtain ⟨s, hs, hclose', hsized'⟩ := hy
  have hsize := hsized.mul hsized'
  obtain ⟨t, ht, hnear, hsize'⟩ := (standsNear_mul hr hs (hsize.ordinary h)).carries hsize
  exact ⟨t, ht, hnear.trans (hclose.mul hclose' hp.le hsized'.pos.le), hsize'⟩

end Closeness

section Angles

/-- The tangent of twice an angle is at least twice its tangent, and so on. -/
theorem tan_mul_le (hp : 0 < p) (hpq : p ≤ q) (hq : q < Real.pi / 2) : tan p * q ≤ tan q * p := by
  have hcosp : 0 < cos p := Real.cos_pos_of_mem_Ioo ⟨by linarith, by linarith⟩
  have hcosq : 0 < cos q := Real.cos_pos_of_mem_Ioo ⟨by linarith, hq⟩
  obtain ⟨d, rfl⟩ : ∃ d, q = p + d := ⟨q - p, by ring⟩
  have hd : 0 ≤ d := by linarith
  have hcosd : 0 < cos d := Real.cos_pos_of_mem_Ioo ⟨by linarith, by linarith⟩
  have hdecrease : cos (p + d) ≤ cos d :=
    Real.cos_le_cos_of_nonneg_of_le_pi hd (by linarith) (by linarith)
  have hchord : d * cos d ≤ sin d := by
    rw [← le_div_iff₀ hcosd, ← Real.tan_eq_sin_div_cos]
    exact Real.le_tan hd (by linarith)
  have hsum : sin d = sin (p + d) * cos p - cos (p + d) * sin p := by
    rw [← Real.sin_sub, add_sub_cancel_left]
  have hgap : d * (sin p * cos (p + d)) ≤ p * sin d := by
    calc d * (sin p * cos (p + d)) ≤ d * (p * cos d) := by
          refine mul_le_mul_of_nonneg_left ?_ hd
          exact mul_le_mul (Real.sin_le hp.le) hdecrease hcosq.le hp.le
      _ = p * (d * cos d) := by ring
      _ ≤ p * sin d := mul_le_mul_of_nonneg_left hchord hp.le
  rw [Real.tan_eq_sin_div_cos, Real.tan_eq_sin_div_cos, div_mul_eq_mul_div, div_mul_eq_mul_div,
    div_le_div_iff₀ hcosp hcosq]
  rw [hsum] at hgap
  linarith

theorem tan_apart (hp : 0 < p) (hc : 1 ≤ r) (hpq : p * r ≤ q) (hq : q < Real.pi / 2) :
    tan p * r ≤ tan q := by
  have hle : p ≤ q := (le_mul_of_one_le_right hp.le hc).trans hpq
  have htan : 0 ≤ tan p := Real.tan_nonneg_of_nonneg_of_le_pi_div_two hp.le (by linarith)
  refine le_of_mul_le_mul_right ?_ hp
  calc tan p * r * p = tan p * (p * r) := by ring
    _ ≤ tan p * q := mul_le_mul_of_nonneg_left hpq htan
    _ ≤ tan q * p := tan_mul_le hp hle hq

/-- The tangent of a very small angle rounds to the angle. -/
theorem close_tan_of_small (hp : 0 < p) (hsmall : p ≤ 2 ^ (-27 : ℤ)) : Close 1 p (tan p) := by
  norm_num at hsmall
  have hpi := Real.pi_gt_three
  have hcos : 0 < cos p := Real.cos_pos_of_mem_Ioo ⟨by linarith, by linarith⟩
  have htan : p ≤ tan p := Real.le_tan hp.le (by linarith)
  constructor
  · exact htan.trans (le_mul_of_one_le_right (hp.le.trans htan) (one_le_pow₀ one_le_grain))
  · have hquadratic := Real.one_sub_sq_div_two_le_cos (x := p)
    have hsquare : p ^ 2 ≤ 1 / 2 ^ 54 := by
      calc p ^ 2 ≤ (1 / 134217728) ^ 2 := pow_le_pow_left₀ hp.le hsmall 2
        _ = 1 / 2 ^ 54 := by norm_num
    have hfactor : 1 ≤ grain ^ 1 * cos p := by
      calc (1 : ℝ) ≤ grain ^ 1 * (1 - 1 / 2 ^ 55) := by norm_num [grain]
        _ ≤ grain ^ 1 * cos p := by
          refine mul_le_mul_of_nonneg_left ?_ (pow_nonneg grain_pos.le 1)
          norm_num at hsquare ⊢
          linarith
    rw [Real.tan_eq_sin_div_cos, div_le_iff₀ hcos, mul_assoc]
    exact (Real.sin_le hp.le).trans (le_mul_of_one_le_right hp.le hfactor)

end Angles

section Quotient

theorem quotientMantissa_near (a : ℕ) {b : ℕ} (hb : 0 < b) :
    |(Value.quotientMantissa a b : ℝ) - 2 * (a * 2 ^ (64 + b.log2) / b)| ≤ 1 := by
  obtain ⟨c, hc⟩ : ∃ c, c = a * 2 ^ (64 + b.log2) := ⟨_, rfl⟩
  have hb' : (0 : ℝ) < b := Nat.cast_pos.mpr hb
  have hsplit : (c : ℝ) / b = (c / b : ℕ) + (c % b : ℕ) / b := by
    rw [div_eq_iff hb'.ne', add_mul, div_mul_cancel₀ _ hb'.ne']
    exact_mod_cast (Nat.div_add_mod' c b).symm
  have hlt : ((c % b : ℕ) : ℝ) / b < 1 := by
    rw [div_lt_one hb']
    exact_mod_cast Nat.mod_lt c hb
  have hnonneg : (0 : ℝ) ≤ ((c % b : ℕ) : ℝ) / b := by positivity
  have hcast : (a : ℝ) * 2 ^ (64 + b.log2) = c := by
    rw [hc]
    push_cast
    rfl
  rw [Value.quotientMantissa, Nat.shiftLeft_eq, ← hc, hcast, hsplit, abs_le]
  split_ifs with hzero
  · rw [hzero, Nat.cast_zero, zero_div]
    push_cast
    constructor <;> linarith
  · push_cast
    constructor <;> linarith

theorem close_ratio {a b : ℕ} (ha : 0 < a) (hb : 0 < b) (negative : Bool) :
    Close 1 (Value.ratio negative a b 0).size (a / b) := by
  obtain ⟨u, hu⟩ : ∃ u : ℝ, u = 2 ^ (64 + b.log2) := ⟨_, rfl⟩
  have hb' : (0 : ℝ) < b := Nat.cast_pos.mpr hb
  have ha' : (1 : ℝ) ≤ a := by exact_mod_cast ha
  have hupos : 0 < u := by rw [hu]; positivity
  have hnear := quotientMantissa_near a hb
  have hsize : (Value.ratio negative a b 0).size = Value.quotientMantissa a b / (2 * u) := by
    rw [Value.size_ratio, zero_sub, ← neg_add', zpow_neg, zpow_add_one₀ two_ne_zero, zpow_natCast,
      ← hu, mul_comm u, div_eq_mul_inv]
  have hlarge : 2 ^ 53 * b ≤ 2 * (a * u) := by
    have hlog : (b : ℝ) ≤ 2 ^ (b.log2 + 1) := by exact_mod_cast Nat.lt_log2_self.le
    calc (2 : ℝ) ^ 53 * b ≤ 2 ^ 53 * 2 ^ (b.log2 + 1) := by gcongr
      _ ≤ 2 * 2 ^ (64 + b.log2) := by
        rw [← pow_add, ← pow_succ']
        exact pow_le_pow_right₀ one_le_two (by omega)
      _ ≤ 2 * (a * u) := by
        rw [← hu]
        linarith [le_mul_of_one_le_left hupos.le ha']
  rw [← hu] at hnear
  refine close_of_near (by positivity) ?_
  have hscaled : (Value.quotientMantissa a b : ℝ) / (2 * u) - a / b =
      (Value.quotientMantissa a b - 2 * (a * u / b)) / (2 * u) := by
    field_simp
  rw [hsize, hscaled, abs_div, abs_of_pos (by positivity : 0 < 2 * u), div_le_iff₀ (by positivity)]
  have hvalue : (a : ℝ) / b * 2 ^ (-53 : ℤ) * (2 * u) = 2 * (a * u) / (2 ^ 53 * b) := by
    rw [zpow_neg, zpow_ofNat]
    field_simp
  rw [hvalue]
  exact hnear.trans ((one_le_div (by positivity)).mpr hlarge)

end Quotient

section Tangent

open FixedPoint (angle scale sine cosine circleBits)

theorem angle_shifted {m : ℕ} {e : ℤ} (he : -384 ≤ e) :
    angle (m <<< (e + circleBits).toNat : ℕ) = m * 2 ^ e := by
  obtain ⟨c, hc⟩ : ∃ c : ℕ, e = c - 384 := ⟨(e + 384).toNat, by omega⟩
  have hshift : (e + circleBits).toNat = c := by
    have hbits : (circleBits : ℤ) = 384 := rfl
    omega
  have hscale : (scale : ℝ) = 2 ^ (384 : ℤ) := by
    rw [scale, Nat.cast_pow]
    rfl
  rw [hshift, Nat.shiftLeft_eq, angle, hscale, hc, zpow_sub₀ two_ne_zero, zpow_natCast]
  push_cast
  ring

theorem three_le_pi : 3 * scale ≤ FixedPoint.pi := by decide +kernel

/-- The first quadrant without the last angles, whose tangents are large. -/
structure Quadrant (p : ℝ) : Prop where
  pos : 0 < p
  le : p ≤ Real.pi / 2 - 2 ^ (-23 : ℤ)

namespace Quadrant

variable (h : Quadrant p)

include h

theorem lt : p < Real.pi / 2 := by
  have := h.le
  norm_num at this
  linarith

theorem le_eight_fifths : p ≤ 8 / 5 := by
  have := h.lt
  have := Real.pi_lt_d2
  linarith

theorem le_cos : (2 : ℝ) ^ (-24 : ℤ) ≤ cos p := by
  have hpi := Real.pi_le_four
  have hpi' := Real.pi_pos
  have hle := h.le
  have hpos := h.pos
  have hsin := Real.mul_le_sin (x := Real.pi / 2 - p) (by linarith [h.lt]) (by linarith)
  rw [Real.sin_pi_div_two_sub] at hsin
  refine le_trans ?_ hsin
  rw [div_mul_eq_mul_div, le_div_iff₀ hpi']
  norm_num at hle ⊢
  linarith

theorem le_sin : p / 2 ≤ sin p := by
  have hsin := Real.mul_le_sin h.pos.le h.lt.le
  refine le_trans ?_ hsin
  rw [div_mul_eq_mul_div, div_le_div_iff₀ two_pos Real.pi_pos]
  have := mul_le_mul_of_nonneg_left Real.pi_le_four h.pos.le
  linarith

theorem tan_le : tan p ≤ 2 ^ 24 := by
  have hcos := h.le_cos
  have hpos : 0 < cos p := lt_of_lt_of_le (by positivity) hcos
  rw [Real.tan_eq_sin_div_cos, div_le_iff₀ hpos]
  norm_num at hcos ⊢
  linarith [Real.sin_le_one p]

theorem sized_tan (hn : Sized n p) (h24 : 24 ≤ n) : Sized n (tan p) := by
  constructor
  · exact hn.low.trans (mul_le_mul_of_nonneg_right (Real.le_tan h.pos.le h.lt) (by positivity))
  · exact h.tan_le.trans (pow_le_pow_right₀ one_le_two h24)

end Quadrant

/-- A positive fixed-point number within `2 ^ -256` of a size that is not too small. -/
theorem close_angle {i : ℤ} (hq : (2 : ℝ) ^ (-28 : ℤ) ≤ q) (h : |angle i - q| ≤ 2 ^ (-256 : ℤ)) :
    0 < i ∧ Close 1 (angle i) q := by
  have hsmall : (2 : ℝ) ^ (-256 : ℤ) ≤ 2 ^ (-28 : ℤ) * 2 ^ (-53 : ℤ) := by
    rw [← zpow_add₀ two_ne_zero]
    exact zpow_le_zpow_right₀ one_le_two (by norm_num)
  have hpos : 0 < q := lt_of_lt_of_le (by positivity) hq
  have hnear : |angle i - q| ≤ q * 2 ^ (-53 : ℤ) :=
    h.trans (hsmall.trans (mul_le_mul_of_nonneg_right hq (by positivity)))
  have hclose := close_of_near hpos.le hnear
  refine ⟨?_, hclose⟩
  have hangle : 0 < angle i :=
    pos_of_mul_pos_left (hpos.trans_le hclose.ge) (pow_nonneg grain_pos.le 1)
  rw [angle, div_pos_iff_of_pos_right (Nat.cast_pos.mpr FixedPoint.scale_pos)] at hangle
  exact_mod_cast hangle

theorem angle_div_angle (i j : ℤ) : angle i / angle j = i / j :=
  div_div_div_cancel_right₀ (Nat.cast_pos.mpr FixedPoint.scale_pos).ne' _ _

theorem close_tan {i j : ℤ} (hp : Quadrant p) (hi : Close 1 (angle i) (sin p))
    (hj : Close 1 (angle j) (cos p)) (hj' : 0 < j) : Close 2 ((i : ℝ) / j) (tan p) := by
  have hcos : 0 < cos p := lt_of_lt_of_le (by positivity) hp.le_cos
  have hsin : 0 < sin p := lt_of_lt_of_le (half_pos hp.pos) hp.le_sin
  have hangle : 0 < angle j :=
    div_pos (by exact_mod_cast hj') (Nat.cast_pos.mpr FixedPoint.scale_pos)
  rw [← angle_div_angle, Real.tan_eq_sin_div_cos, div_eq_mul_inv, div_eq_mul_inv]
  exact hi.mul (hj.inv hangle hcos) hsin.le (inv_pos.mpr hangle).le

theorem carries_ratio {a b : ℕ} (ha : 0 < a) (hb : 0 < b) (hn : Sized n ((a : ℝ) / b))
    (hn' : n < 1000) : Carries (Value.toDouble (.ratio false a b 0)) (a / b) 2 (n + 2) := by
  have hclose := close_ratio ha hb false
  have hsize := hn.close hclose
  obtain ⟨c, g, hc⟩ : ∃ c g, Value.ratio false a b 0 = .finite false c g := ⟨_, _, rfl⟩
  rw [hc, Value.size_finite] at hclose hsize
  rw [hc]
  exact ((standsNear_toDouble (hsize.ordinary hn')).carries hsize).trans hclose

theorem mod_pi {r : ℕ} (hr : angle r ≤ 8 / 5) : r % FixedPoint.pi = r := by
  have hlt : angle r < 3 := by linarith
  rw [angle, div_lt_iff₀ (Nat.cast_pos.mpr FixedPoint.scale_pos)] at hlt
  exact Nat.mod_eq_of_lt (lt_of_lt_of_le (by exact_mod_cast hlt) three_le_pi)

theorem carries_circle {r : ℕ} (hr : angle r = p) (hp : Quadrant p) (hlarge : 2 ^ (-27 : ℤ) ≤ p)
    (hn : Sized n (tan p)) (hn' : n ≤ 900) :
    Carries (Value.toDouble (.ratio (false != decide (cosine r < 0)) (sine r).natAbs
      (cosine r).natAbs 0)) (tan p) 4 (n + 4) := by
  have hr' : angle r ≤ 8 / 5 := hr ▸ hp.le_eight_fifths
  have hsin := FixedPoint.sine_near hr'
  have hcos := FixedPoint.cosine_near hr'
  rw [hr] at hsin hcos
  have hhalf : (2 : ℝ) ^ (-28 : ℤ) ≤ p / 2 := by
    norm_num at hlarge ⊢
    linarith
  obtain ⟨hs, hsin⟩ := close_angle (hhalf.trans hp.le_sin) hsin
  obtain ⟨hc, hcos⟩ := close_angle
    ((zpow_le_zpow_right₀ one_le_two (by norm_num)).trans hp.le_cos) hcos
  have hclose := close_tan hp hsin hcos hc
  obtain ⟨a, ha⟩ := Int.eq_ofNat_of_zero_le hs.le
  obtain ⟨b, hb⟩ := Int.eq_ofNat_of_zero_le hc.le
  rw [ha, hb, Int.cast_natCast, Int.cast_natCast] at hclose
  have hsign : (false != decide ((b : ℤ) < 0)) = false := by simp
  rw [ha, hb, hsign, Int.natAbs_natCast, Int.natAbs_natCast]
  exact (carries_ratio (by omega) (by omega) (hn.close hclose) (by omega)).trans hclose

/-- Fifty digits of the tangent are right. -/
theorem carries_tangent (hx : Stands x p) (hp : Quadrant p) (hn : Sized n p) (h24 : 24 ≤ n)
    (hn' : n ≤ 900) : Carries (tangent x) (tan p) 4 (n + 4) := by
  obtain ⟨m, e, hm, rfl⟩ := hx
  rw [tangent, hm.value, Value.tangent]
  split_ifs with hsmall
  · have hle : (m : ℝ) * 2 ^ e ≤ 2 ^ (-27 : ℤ) :=
      (lt_two_zpow_log2 m e).le.trans (zpow_le_zpow_right₀ one_le_two (by omega))
    have hround := standsNear_toDouble (hn.ordinary (hn'.trans (by decide)))
    exact ((hround.carries hn).trans (close_tan_of_small hp.pos hle)).mono (by omega) (by omega)
  · have hlog : m.log2 < 53 := (Nat.log2_lt hm.pos.ne').mpr hm.lt
    have hangle := angle_shifted (m := m) (e := e) (by omega)
    have hlarge : (2 : ℝ) ^ (-27 : ℤ) ≤ m * 2 ^ e :=
      (zpow_le_zpow_right₀ one_le_two (by omega)).trans (two_zpow_log2_le hm.pos.ne' e)
    dsimp only
    rw [mod_pi (hangle ▸ hp.le_eight_fifths)]
    exact carries_circle hangle hp hlarge (hp.sized_tan hn h24) hn'

end Tangent

end VisibleDifference.Binary
