import VisibleDifference.Proofs.Ranges.Levels
import VisibleDifference.Proofs.Single.Powers

/-!
# Ranges of sensitivity and elevation

For frequencies up to `2 ^ 50` the sensitivity to contrast is finite, so that the weight of a band
is finite and not too small. The masking of a contrast is at least one, and finite for contrasts
that are hardly seen. A band whose contrast is so small that its weighted contrast vanishes is such
a band, so the elevation of bounded contrasts is a number or infinite, never NaN.
-/

namespace VisibleDifference

open Binary

variable {x : Float32} {q : ℝ}

/-- Ranges of a response to contrast. -/
structure ContrastResponse.InRange (r : ContrastResponse) : Prop where
  scale : UpTo (2 ^ 9) r.scale
  rate : UpTo (2 ^ 25) r.rate

namespace ContrastResponse

/-- One more than a quotient by a luminance. -/
theorem one_add_ratio {c luminance : Float32} (hc : (Value.ofSingle c).isUpTo 7 = true)
    (hl : AtLeast (2 ^ (-17 : ℤ)) luminance) :
    AtLeast 1 (1 + c / luminance) ∧ UpTo (2 ^ 25) (1 + c / luminance) := by
  have hone' : UpTo 1 1 := upTo_one_of_isUpTo (by decide +kernel)
  have hratio : UpTo (2 ^ 24) (c / luminance) :=
    upTo_div (upTo_of_isUpTo hc) hl (by positivity) (Grid.two_pow (by decide)) (by norm_num)
  exact ⟨atLeast_add atLeast_one hratio.atLeast Grid.one,
    upTo_add hone' hratio (Grid.two_pow (by decide)) (by norm_num)⟩

theorem inRange_ofLuminance {luminance : Float32} (hl : AtLeast (2 ^ (-17 : ℤ)) luminance) :
    (ofLuminance luminance).InRange where
  scale := by
    have hscale : UpTo (2 ^ (9 : ℤ)) (440 : Float32) := upTo_of_isUpTo (by decide +kernel)
    have hpower : UpTo 1 (power (1 + 0.7 / luminance) (-0.2)) :=
      power_neg_le_one (one_add_ratio (by decide +kernel) hl).1
        (upTo_one_of_isUpTo (by decide +kernel)) (by decide +kernel)
    exact upTo_mul hscale hpower (Grid.two_pow (by decide)) (by norm_num)
  rate := by
    have hrate : UpTo 1 (0.3 : Float32) := upTo_one_of_isUpTo (by decide +kernel)
    have hpower : UpTo (2 ^ (25 * 1)) (power (1 + 100 / luminance) 0.15) :=
      upTo_power (one_add_ratio (by decide +kernel) hl).2
        ((upTo_one_of_isUpTo (by decide +kernel)).mono (by norm_num)) (by decide +kernel)
        (by decide)
    exact upTo_mul hrate hpower (Grid.two_pow (by decide)) (by norm_num)

theorem upTo_decay {rate frequency : Float32} {b c : ℝ} (hr : UpTo b rate)
    (hf : UpTo c frequency) : UpTo 1 (exponential (-rate * frequency)) := by
  obtain ⟨p, hp, -⟩ := hr
  obtain ⟨q, hq, -⟩ := hf
  have hneg : reading (-rate) = .number true p := by rw [reading_neg, hp]; rfl
  -- at least zero from above: an infinity or a number with a sign
  obtain hx | ⟨r, hr, hr'⟩ := (rounds_mul hneg hq).above Grid.zero
    (mul_nonneg (size_nonneg hp) (size_nonneg hq))
  · exact exponential_le_one (.inl hx)
  · exact exponential_le_one (.inr ⟨true, r, hr, neg_nonpos.mpr hr'⟩)

/-- The root by which sensitivity decays. -/
def root (r : ContrastResponse) (frequency : Float32) : Float32 :=
  let decay := exponential (-r.rate * frequency)
  (mulAdd 0.06 decay (decay * decay)).sqrt

theorem sensitivity_eq (r : ContrastResponse) (frequency : Float32) :
    r.sensitivity frequency = r.scale * frequency * r.root frequency := rfl

theorem upTo_root {r : ContrastResponse} {frequency : Float32}
    (hdecay : UpTo 1 (exponential (-r.rate * frequency))) : UpTo 2 (r.root frequency) := by
  have hslope : UpTo 1 (0.06 : Float32) := upTo_one_of_isUpTo (by decide +kernel)
  have htwo : Grid 2 := by simpa using Grid.two_pow (k := 1) (by decide)
  have hsum : UpTo 2 (mulAdd 0.06 (exponential (-r.rate * frequency))
      (exponential (-r.rate * frequency) * exponential (-r.rate * frequency))) :=
    upTo_mulAdd hslope hdecay (upTo_mul hdecay hdecay Grid.one (by norm_num)) htwo (by norm_num)
  exact upTo_sqrt hsum htwo (by norm_num)

theorem InRange.upTo_product {r : ContrastResponse} (hr : r.InRange) {frequency : Float32} {k : ℕ}
    (hk : k ≤ 118) (hf : UpTo (2 ^ k) frequency) : UpTo (2 ^ (9 + k)) (r.scale * frequency) :=
  upTo_mul hr.scale hf (Grid.two_pow (by omega)) (pow_add _ _ _).ge

theorem InRange.upTo_sensitivity {r : ContrastResponse} (hr : r.InRange) {frequency : Float32}
    (hf : UpTo (2 ^ 50) frequency) : UpTo (2 ^ 60) (r.sensitivity frequency) := by
  rw [sensitivity_eq]
  exact upTo_mul (hr.upTo_product (by decide) hf) (upTo_root (upTo_decay hr.rate hf))
    (Grid.two_pow (by decide)) (by norm_num)

end ContrastResponse

/-- Sensitivity at its peak. -/
theorem one_le_peak :
    AtLeast 1 (contrastSensitivity ViewingBands.peakFrequency ViewingBands.referenceLuminance) := by
  let r := ContrastResponse.ofLuminance ViewingBands.referenceLuminance
  let decay := exponential (-r.rate * ViewingBands.peakFrequency)
  have hproduct : AtLeast (2 ^ (8 : ℤ)) (r.scale * ViewingBands.peakFrequency) :=
    atLeast_of_isAtLeast (by decide +kernel)
  have hsquare : AtLeast (2 ^ (-4 : ℤ)) (mulAdd 0.06 decay (decay * decay)) :=
    atLeast_of_isAtLeast (by decide +kernel)
  have hroot : AtLeast (2 ^ (-2 : ℤ)) (mulAdd 0.06 decay (decay * decay)).sqrt :=
    atLeast_sqrt hsquare (Grid.two_zpow (by decide) (by decide)) (by norm_num)
  exact atLeast_mul hproduct hroot (by positivity) (by positivity) Grid.one (by norm_num)

namespace ViewingBands

/-- Bands of frequencies up to `2 ^ 50`, with their weights. -/
structure InRange (bands : ViewingBands) : Prop where
  frequency : ∀ l, UpTo (2 ^ 50) (bands.frequency.get l)
  weight : ∀ i, AtLeast (2 ^ (-60 : ℤ)) (bands.weight.get i)
  finite : ∀ i, UpTo (2 ^ 128) (bands.weight.get i)

theorem inRange_weightOf {frequency : Float32} (hf : UpTo (2 ^ 50) frequency) :
    AtLeast (2 ^ (-60 : ℤ)) (weightOf frequency) ∧ UpTo (2 ^ 128) (weightOf frequency) := by
  have hreference : AtLeast (2 ^ (-17 : ℤ)) referenceLuminance :=
    (atLeast_of_isAtLeast (k := 6) (by decide +kernel)).mono (by norm_num)
  have hsensitivity : UpTo (2 ^ 60) (contrastSensitivity frequency referenceLuminance) :=
    (ContrastResponse.inRange_ofLuminance hreference).upTo_sensitivity hf
  have hquotient : AtLeast (2 ^ (-60 : ℤ)) (contrastSensitivity peakFrequency referenceLuminance /
      contrastSensitivity frequency referenceLuminance) :=
    atLeast_div one_le_peak one_pos hsensitivity (Grid.two_zpow (by decide) (by decide))
      (by norm_num)
  have hleast : AtLeast (2 ^ (-60 : ℤ)) largestFinite :=
    (atLeast_of_isAtLeast (k := 127) (by decide +kernel)).mono (by norm_num)
  have hfinite : UpTo (2 ^ 128) largestFinite := upTo_of_isUpTo (k := 128) (by decide +kernel)
  exact ⟨atLeast_smaller hquotient hleast,
    upTo_smaller (hquotient.mono (by positivity)) hfinite⟩

theorem get_frequency_ofExtent (width : ℕ) (extent : Float32) (l : Fin levelCount) :
    (ofExtent width extent).frequency.get l =
      halved ((ofExtent width extent).frequency.get 0) l.val :=
  Vector.getElem_ofFn l.isLt

theorem upTo_halved {f : Float32} {k : ℕ} (hk : k ≤ 127) (hf : UpTo (2 ^ k) f) (n : ℕ) :
    UpTo (2 ^ k) (halved f n) := by
  have hhalf : UpTo 1 (0.5 : Float32) := upTo_one_of_isUpTo (by decide +kernel)
  induction n with
  | zero => exact hf
  | succ n ih => exact upTo_mul hhalf ih (Grid.two_pow hk) (one_mul _).le

theorem inRange_ofExtent {width : ℕ} {extent : Float32}
    (h : UpTo (2 ^ 50) ((ofExtent width extent).frequency.get 0)) :
    (ofExtent width extent).InRange := by
  have hfrequency (l : Fin levelCount) :
      UpTo (2 ^ 50) ((ofExtent width extent).frequency.get l) := by
    rw [get_frequency_ofExtent]
    exact upTo_halved (by decide) h l.val
  have hweight (i : Fin bandCount) : (ofExtent width extent).weight.get i =
      weightOf ((ofExtent width extent).frequency.get (ownLevel i)) := Vector.getElem_ofFn i.isLt
  constructor
  · exact hfrequency
  · intro i
    rw [hweight]
    exact (inRange_weightOf (hfrequency _)).1
  · intro i
    rw [hweight]
    exact (inRange_weightOf (hfrequency _)).2

end ViewingBands

theorem one_le_masking_of_nonneg (ha : AtLeast 0 (power (392.498 * x) 0.7)) :
    AtLeast 1 (masking x) := by
  have hb : AtLeast 0 (power (0.0153 * power (392.498 * x) 0.7) 4) :=
    nonneg_power (nonneg_scale (upTo_one_of_isUpTo (by decide +kernel)) (by decide +kernel) ha)
      (by decide +kernel)
  exact one_le_power (atLeast_add atLeast_one hb Grid.one) (upTo_one_of_isUpTo (by decide +kernel))
    (by decide +kernel)

theorem one_le_masking (hx : AtLeast 0 x) : AtLeast 1 (masking x) :=
  one_le_masking_of_nonneg (nonneg_power
    (nonneg_scale (upTo_of_isUpTo (k := 9) (by decide +kernel)) (by decide +kernel) hx)
    (by decide +kernel))

theorem upTo_masking (hx : UpTo 1 x) : UpTo (2 ^ 37) (masking x) := by
  have ha : UpTo (2 ^ (9 * 1)) (power (392.498 * x) 0.7) :=
    upTo_power (upTo_mul (upTo_of_isUpTo (k := 9) (by decide +kernel)) hx (Grid.two_pow (by decide))
      (by norm_num)) ((upTo_one_of_isUpTo (by decide +kernel)).mono (by norm_num))
      (by decide +kernel) (by decide)
  have hb : UpTo (2 ^ (9 * 4)) (power (0.0153 * power (392.498 * x) 0.7) 4) :=
    upTo_power (upTo_mul (upTo_one_of_isUpTo (by decide +kernel)) ha (Grid.two_pow (by decide))
      (by norm_num)) ((upTo_of_isUpTo (k := 2) (by decide +kernel)).mono (by norm_num))
      (by decide +kernel) (by decide)
  have hone : UpTo 1 (1 : Float32) := upTo_one_of_isUpTo (by decide +kernel)
  have hsum : UpTo (2 ^ 37) (1 + power (0.0153 * power (392.498 * x) 0.7) 4) :=
    upTo_add hone hb (Grid.two_pow (by decide)) (by norm_num)
  exact upTo_power (l := 1) hsum ((upTo_one_of_isUpTo (by decide +kernel)).mono (by norm_num))
    (by decide +kernel) (by decide)

end VisibleDifference
