import VisibleDifference.Conditions
import VisibleDifference.Proofs.Ranges.Sensitivity

/-!
# Where sensitivity overflows

Sensitivity is a product of scale, frequency and a root that decays with the frequency. From
`2 ^ 50` cycles per degree on the root is exactly zero. So long as scale times frequency is finite
the product is then zero, and below that frequency all factors are bounded; but where scale times
frequency overflows, an infinity is multiplied by the vanished root, which gives NaN. The masking of
a finite contrast is NaN for the same frequencies and no others.
-/

namespace VisibleDifference

open Binary

variable {x frequency luminance : Float32} {b : ℝ}

theorem atLeast_darkest (h : Viewing.darkest ≤ luminance) : AtLeast (2 ^ (-17 : ℤ)) luminance := by
  have hn : ¬luminance.isNaN = true := by
    obtain ⟨a, e, -, he, -⟩ := le_iff.mp h
    intro hn
    rw [isNaN_iff_reading.mp hn] at he
    cases he
  exact atLeast_of_not_lt hn Viewing.darkest_pos (by positivity) (not_lt_of_le h)

namespace ContrastResponse

theorem atLeast_rate (hl : AtLeast (2 ^ (-17 : ℤ)) luminance) :
    AtLeast (2 ^ (-2 : ℤ)) (ofLuminance luminance).rate := by
  have hrate : AtLeast (2 ^ (-2 : ℤ)) (0.3 : Float32) := atLeast_of_isAtLeast (by decide +kernel)
  have hpower : AtLeast 1 (power (1 + 100 / luminance) 0.15) :=
    one_le_power (one_add_ratio (by decide +kernel) hl).1
      (upTo_one_of_isUpTo (by decide +kernel)) (by decide +kernel)
  exact atLeast_mul hrate hpower (by positivity) one_pos
    (Grid.two_zpow (by decide) (by decide)) (by norm_num)

variable {r : ContrastResponse} {s : Bool}

theorem decay_vanishes (hr : AtLeast (2 ^ (-2 : ℤ)) r.rate) (hr' : UpTo b r.rate)
    (hf : AtLeast (2 ^ 50) frequency) :
    reading (exponential (-r.rate * frequency)) = .number false 0 := by
  obtain ⟨p, hp, -⟩ := hr'
  have hp' : (2 : ℝ) ^ (-2 : ℤ) ≤ p := hr.le hp
  have hneg : reading (-r.rate) = .number true p := by rw [reading_neg, hp]; rfl
  apply exponential_vanishes
  obtain hf | ⟨q, hq, hq'⟩ := hf
  · exact .inl (reading_infinite_mul hf hneg (lt_of_lt_of_le (by positivity) hp')).2
  · have hpq : (2 : ℝ) ^ 8 ≤ p * q :=
      calc (2 : ℝ) ^ 8 ≤ 2 ^ (-2 : ℤ) * 2 ^ 50 := by norm_num
        _ ≤ p * q := mul_le_mul hp' hq' (by positivity) (size_nonneg hp)
    exact (rounds_mul hneg hq).above (Grid.two_pow (by decide)) hpq

theorem root_vanishes (hd : reading (exponential (-r.rate * frequency)) = .number false 0) :
    reading (r.root frequency) = .number false 0 := by
  obtain ⟨p, hp, -⟩ : UpTo 1 (0.06 : Float32) := upTo_one_of_isUpTo (by decide +kernel)
  have hsum := rounds_mulAdd_pos hp hd (reading_zero_mul hd hd)
  rw [mul_zero, zero_add] at hsum
  have hroot := rounds_sqrt (hsum.exact Grid.zero)
  rw [Real.sqrt_zero] at hroot
  exact hroot.exact Grid.zero

/-- A zero may have a sign; the exponential of a zero is at most one with either. -/
theorem upTo_decay_of_zero (hr : UpTo b r.rate) (hf : reading frequency = .number s 0) :
    UpTo 1 (exponential (-r.rate * frequency)) := by
  obtain ⟨p, hp, -⟩ := hr
  have hneg : reading (-r.rate) = .number true p := by rw [reading_neg, hp]; rfl
  have hproduct := rounds_mul hneg hf
  rw [mul_zero] at hproduct
  refine exponential_le_one (.inr ⟨_, 0, hproduct.exact Grid.zero, ?_⟩)
  cases s <;> simp

/-- Sensitivity is a number where scale times frequency is one, and NaN elsewhere. -/
def TiedToProduct (r : ContrastResponse) (frequency : Float32) : Prop :=
  (r.scale * frequency).isFinite = true ∧ (r.sensitivity frequency).isFinite = true ∧
      0 ≤ r.sensitivity frequency ∨
    (r.scale * frequency).isFinite = false ∧ (r.sensitivity frequency).isNaN = true

theorem tied_of_zero {t : Bool} {p : ℝ} (hp : reading (r.scale * frequency) = .number s p)
    (hz : reading (r.sensitivity frequency) = .number t 0) : r.TiedToProduct frequency :=
  .inl ⟨isFinite_iff.mpr ⟨s, p, hp⟩, isFinite_iff.mpr ⟨t, 0, hz⟩, zero_le_of_zero hz⟩

theorem tied_of_root_zero (hroot : reading (r.root frequency) = .number false 0) :
    r.TiedToProduct frequency := by
  cases hproduct : reading (r.scale * frequency) with
  | nan =>
    exact .inr ⟨isFinite_eq_false fun s q h => (nomatch hproduct.symm.trans h),
      isNaN_iff_reading.mpr (nan_mul hproduct _)⟩
  | infinite s =>
    exact .inr ⟨isFinite_eq_false fun s q h => (nomatch hproduct.symm.trans h),
      isNaN_iff_reading.mpr (reading_infinite_mul_zero hproduct hroot).1⟩
  | number s p =>
    have hzero := rounds_mul hproduct hroot
    rw [mul_zero] at hzero
    exact tied_of_zero hproduct (hzero.exact Grid.zero)

theorem tied_of_frequency_zero (hr : r.InRange) (hf : reading frequency = .number s 0) :
    r.TiedToProduct frequency := by
  obtain ⟨scale, hscale, -⟩ := hr.scale
  obtain ⟨q, hq, -⟩ := upTo_root (upTo_decay_of_zero hr.rate hf)
  have hproduct := rounds_mul hscale hf
  rw [mul_zero] at hproduct
  have hproduct := hproduct.exact Grid.zero
  have hzero := rounds_mul hproduct hq
  rw [zero_mul] at hzero
  exact tied_of_zero hproduct (hzero.exact Grid.zero)

theorem tied_of_small (hr : r.InRange) (hf : UpTo (2 ^ 50) frequency) :
    r.TiedToProduct frequency := by
  have hproduct := hr.upTo_product (by decide) hf
  have hup := hr.upTo_sensitivity hf
  exact .inl ⟨hproduct.bounded.isFinite, hup.bounded.isFinite, zero_le_iff.mpr (.inl hup.atLeast)⟩

theorem tiedToProduct (hl : AtLeast (2 ^ (-17 : ℤ)) luminance) (hf : 0 ≤ frequency) :
    (ofLuminance luminance).TiedToProduct frequency := by
  have hr := inRange_ofLuminance hl
  obtain hf | hf := zero_le_iff.mp hf
  · by_cases hsmall : UpTo (2 ^ 50) frequency
    · exact tied_of_small hr hsmall
    · have hlarge : AtLeast (2 ^ 50) frequency :=
        hf.imp_right fun ⟨q, hq, _⟩ => ⟨q, hq, (not_le.mp fun hle => hsmall ⟨q, hq, hle⟩).le⟩
      exact tied_of_root_zero (root_vanishes (decay_vanishes (atLeast_rate hl) hr.rate hlarge))
  · exact tied_of_frequency_zero hr hf

end ContrastResponse

section Masking

theorem one_le_masking_of_zero_le (hx : 0 ≤ x) : AtLeast 1 (masking x) := by
  obtain hx | hx := zero_le_iff.mp hx
  · exact one_le_masking hx
  · obtain ⟨p, hp, -⟩ : UpTo (2 ^ (9 : ℤ)) (392.498 : Float32) := upTo_of_isUpTo (by decide +kernel)
    have hproduct := rounds_mul hp hx
    rw [mul_zero] at hproduct
    have hexponent : Value.ofSingle 0.7 = .finite false 11744051 (-24) := by decide +kernel
    have hpower := power_of_zero (hproduct.exact Grid.zero) hexponent (by decide) (by decide)
    exact one_le_masking_of_nonneg (.inr ⟨0, hpower, le_rfl⟩)

theorem masking_nan (hx : reading x = .nan) : reading (masking x) = .nan := by
  have ha := power_nan (y := 0.7) (mul_nan hx 392.498)
    (show Value.ofSingle 0.7 = .finite false 11744051 (-24) by decide +kernel) (by decide)
  have hb := power_nan (y := 4) (mul_nan ha 0.0153)
    (show Value.ofSingle 4 = .finite false 8388608 (-21) by decide +kernel) (by decide)
  exact power_nan (y := 0.25) (add_nan hb 1)
    (show Value.ofSingle 0.25 = .finite false 8388608 (-25) by decide +kernel) (by decide)

/-- The masking of a finite contrast is NaN where its sensitivity is. -/
theorem isNaN_masking_sensitivity {r : ContrastResponse} {contrast : Float32}
    (hr : r.TiedToProduct frequency) (hc : contrast.isFinite = true) (hc' : 0 ≤ contrast) :
    (masking (contrast * r.sensitivity frequency)).isNaN = !(r.scale * frequency).isFinite := by
  obtain ⟨hproduct, hfinite, hnonneg⟩ | ⟨hproduct, hnan⟩ := hr
  · rw [hproduct]
    exact Bool.eq_false_iff.mpr
      (one_le_masking_of_zero_le (zero_le_mul hc' hc hnonneg hfinite)).not_nan
  · rw [hproduct]
    exact isNaN_iff_reading.mpr (masking_nan (mul_nan (isNaN_iff_reading.mp hnan) contrast))

end Masking

section Bounded

theorem upTo_of_le_largest (hf : 0 ≤ frequency) (h : frequency ≤ 1e35) :
    UpTo (2 ^ 118) frequency ∨ reading frequency = .number true 0 :=
  (zero_le_iff.mp hf).imp_left fun hf =>
    upTo_of_le hf h (upTo_of_isUpTo (k := 118) (by decide +kernel))

theorem isFinite_product {r : ContrastResponse} (hr : r.InRange) (hf : 0 ≤ frequency)
    (h : frequency ≤ 1e35) : (r.scale * frequency).isFinite = true := by
  obtain hf | hf := upTo_of_le_largest hf h
  · exact (hr.upTo_product le_rfl hf).bounded.isFinite
  · obtain ⟨p, hp, -⟩ := hr.scale
    have hproduct := rounds_mul hp hf
    rw [mul_zero] at hproduct
    exact isFinite_iff.mpr ⟨_, 0, hproduct.exact Grid.zero⟩

end Bounded

namespace ViewingBands

theorem zero_le_halved {f : Float32} (hf : 0 ≤ f) (n : ℕ) : 0 ≤ halved f n := by
  induction n with
  | zero => exact hf
  | succ n ih =>
    exact zero_le_scale (upTo_one_of_isUpTo (by decide +kernel)) (by decide +kernel) ih

end ViewingBands

/-- Sensitivity to a frequency that is not negative is a number, not below zero, exactly where scale
times frequency does not overflow, and NaN elsewhere; the same frequencies make the masking of a
finite contrast NaN, in each level of every picture. Up to `1e35` cycles per degree nothing
overflows. -/
theorem sensitivity_is_nan_iff_product_overflows (luminance : Float32)
    (hl : Viewing.darkest ≤ luminance) :
    (∀ frequency : Float32, 0 ≤ frequency →
      let product := (ContrastResponse.ofLuminance luminance).scale * frequency
      (product.isFinite = true → (contrastSensitivity frequency luminance).isFinite = true ∧
        0 ≤ contrastSensitivity frequency luminance) ∧
      (product.isFinite = false → (contrastSensitivity frequency luminance).isNaN = true) ∧
      (frequency ≤ 1e35 → product.isFinite = true)) ∧
    ∀ (width : ℕ) (fieldOfView contrast : Float32) (l : Fin levelCount),
      0 ≤ (ViewingBands.of width fieldOfView).frequency.get 0 → contrast.isFinite = true →
      0 ≤ contrast →
      let frequency := (ViewingBands.of width fieldOfView).frequency.get l
      (masking (contrast * contrastSensitivity frequency luminance)).isNaN =
        !((ContrastResponse.ofLuminance luminance).scale * frequency).isFinite := by
  have hl := atLeast_darkest hl
  constructor
  · intro frequency hf product
    have htied := ContrastResponse.tiedToProduct hl hf
    refine ⟨fun hproduct => ?_, fun hproduct => ?_,
      isFinite_product (ContrastResponse.inRange_ofLuminance hl) hf⟩
    · obtain ⟨-, hnumber⟩ | ⟨hover, -⟩ := htied
      · exact hnumber
      · exact absurd (hproduct.symm.trans hover) (by decide)
    · obtain ⟨hfinite, -⟩ | ⟨-, hnan⟩ := htied
      · exact absurd (hproduct.symm.trans hfinite) (by decide)
      · exact hnan
  · intro width fieldOfView contrast l hf hc hc' frequency
    have hfrequency : 0 ≤ frequency := by
      change 0 ≤ (ViewingBands.ofExtent _ _).frequency.get l
      rw [ViewingBands.get_frequency_ofExtent]
      exact ViewingBands.zero_le_halved hf l.val
    exact isNaN_masking_sensitivity (ContrastResponse.tiedToProduct hl hfrequency) hc hc'

/-- A frequency of `1e4` cycles per degree, at which nothing overflows. -/
theorem sensitivity_is_finite_far_above_the_visible :
    ((0 : Float32) ≤ 1e4 ∧ Viewing.darkest ≤ 100 ∧ (1e4 : Float32) ≤ 1e35 ∧
      (contrastSensitivity 1e4 100).isFinite = true ∧ 0 ≤ contrastSensitivity 1e4 100) ∧
    0 ≤ (ViewingBands.of 640 45).frequency.get 0 ∧ (0.5 : Float32).isFinite = true ∧
      (0 : Float32) ≤ 0.5 ∧
      (masking (0.5 * contrastSensitivity ((ViewingBands.of 640 45).frequency.get 0) 100)).isNaN =
        !((ContrastResponse.ofLuminance 100).scale *
          (ViewingBands.of 640 45).frequency.get 0).isFinite := by
  have hf : (0 : Float32) ≤ 1e4 := by decide +kernel
  have hl : Viewing.darkest ≤ 100 := by decide +kernel
  have hle : (1e4 : Float32) ≤ 1e35 := by decide +kernel
  have hbands : 0 ≤ (ViewingBands.of 640 45).frequency.get 0 := by decide +kernel
  have hfinite : (0.5 : Float32).isFinite = true := by decide +kernel
  have hpos : (0 : Float32) ≤ 0.5 := by decide +kernel
  obtain ⟨hsensitivity, hmasking⟩ := sensitivity_is_nan_iff_product_overflows 100 hl
  obtain ⟨hnumber, -, hbelow⟩ := hsensitivity 1e4 hf
  exact ⟨⟨hf, hl, hle, hnumber (hbelow hle)⟩, hbands, hfinite, hpos,
    hmasking 640 45 0.5 0 hbands hfinite hpos⟩

/-- A finite frequency whose sensitivity is NaN, and a field of view that is accepted although even
a contrast of zero is masked by NaN in the lowest level. -/
theorem sensitivity_of_huge_frequency_is_nan :
    (1e38 : Float32).isFinite = true ∧ (0 : Float32) ≤ 1e38 ∧ Viewing.darkest ≤ 100 ∧
      (contrastSensitivity 1e38 100).isNaN = true ∧
      ({ fieldOfView := 1e-38 } : Conditions).validate = .ok () ∧
      (masking (0 * contrastSensitivity ((ViewingBands.of 1 1e-38).frequency.get 0) 100)).isNaN =
        true := by
  refine ⟨by decide +kernel, by decide +kernel, by decide +kernel, by decide +kernel, ?_,
    by decide +kernel⟩
  rfl

end VisibleDifference
