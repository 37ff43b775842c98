import VisibleDifference.Proofs.Double.Tangent
import VisibleDifference.Proofs.Single.Monotone

/-!
# The extent of a flat screen grows with the angle

Two different angles in single precision are farther apart than all roundings on the way to the
tangent and from there to the extent. So the extents keep their order in double precision, and
rounding to single precision keeps it too.
-/

namespace VisibleDifference.Binary

open Real (tan)

variable {f g : Float32} {x : Float} {k m n : ℕ} {a b p q : ℝ}

section Gaps

theorem Canonical.exponent_le {e j : ℤ} (hm : Canonical m e) (hn : Canonical n j)
    (h : (m : ℝ) * 2 ^ e ≤ n * 2 ^ j) : e ≤ j := by
  by_contra! hlt
  have hleast := hn.least
  have hfull : (2 : ℝ) ^ (23 : ℤ) ≤ m := by exact_mod_cast hm.full.resolve_right (by omega)
  have hn' : (n : ℝ) < 2 ^ (24 : ℤ) := by exact_mod_cast hn.lt
  refine absurd h (not_le.mpr ?_)
  calc (n : ℝ) * 2 ^ j < 2 ^ (24 : ℤ) * 2 ^ j := by gcongr
    _ = 2 ^ (24 + j) := (zpow_add₀ two_ne_zero _ _).symm
    _ ≤ 2 ^ (23 + e) := zpow_le_zpow_right₀ one_le_two (by omega)
    _ = 2 ^ (23 : ℤ) * 2 ^ e := zpow_add₀ two_ne_zero _ _
    _ ≤ m * 2 ^ e := by gcongr

theorem Canonical.eq_zero_of_shifted {e : ℤ} {c : ℕ} (hm : Canonical m e)
    (hn : Canonical n (e + c)) (h : m = n * 2 ^ c) : c = 0 := by
  by_contra hc
  have hleast := hm.least
  have hfull := hn.full.resolve_right (by omega)
  have hpow : 2 ≤ 2 ^ c := Nat.le_self_pow hc 2
  have hlarge := Nat.mul_le_mul hfull hpow
  have hlt := hm.lt
  omega

/-- Two numbers are the same or at least one part in `2 ^ 24` apart. -/
theorem eq_or_gap (hf : reading f = .number false a) (hg : reading g = .number false b)
    (ha : 0 < a) (h : a ≤ b) : f = g ∨ a * (1 + 2 ^ (-24 : ℤ)) ≤ b := by
  obtain ⟨-, rfl⟩ | ⟨m, e, hm, hf', hme, rfl⟩ := form_of_number hf
  · exact absurd ha (lt_irrefl 0)
  obtain ⟨-, rfl⟩ | ⟨n, j, hn, hg', hnj, rfl⟩ := form_of_number hg
  · exact absurd (ha.trans_le h) (lt_irrefl 0)
  have hpos : (0 : ℝ) < 2 ^ e := by positivity
  obtain ⟨c, rfl⟩ := Int.le.dest (hme.exponent_le hnj h)
  have hvalue : (n : ℝ) * 2 ^ (e + c : ℤ) = (n * 2 ^ c : ℕ) * 2 ^ e := by
    rw [zpow_add₀ two_ne_zero, zpow_natCast]
    push_cast
    ring
  rw [hvalue] at h ⊢
  have hle : m ≤ n * 2 ^ c := by exact_mod_cast le_of_mul_le_mul_right h hpos
  obtain heq | hlt := hle.eq_or_lt
  · left
    obtain rfl := hme.eq_zero_of_shifted hnj heq
    obtain rfl : m = n := by omega
    refine eq_of_unpack_eq ?_
    rw [hf', hg']
    simp
  · right
    have hm' : (m : ℝ) * 2 ^ (-24 : ℤ) ≤ 1 := by
      rw [zpow_neg, ← div_eq_mul_inv, div_le_one (by positivity)]
      exact_mod_cast hme.lt.le
    have hnext : (m : ℝ) + 1 ≤ (n * 2 ^ c : ℕ) := by exact_mod_cast hlt
    calc (m : ℝ) * 2 ^ e * (1 + 2 ^ (-24 : ℤ)) = (m + m * 2 ^ (-24 : ℤ)) * 2 ^ e := by ring
      _ ≤ (n * 2 ^ c : ℕ) * 2 ^ e := mul_le_mul_of_nonneg_right (by linarith) hpos.le

/-- More roundings than there are on the way from one angle to its extent and from another one. -/
theorem grain_pow_le : grain ^ 18 ≤ 1 + 2 ^ (-24 : ℤ) := by norm_num [grain]

end Gaps

section Angles

theorem carries_of_value {e : ℤ} (h : Value.ofDouble x = .finite false m e) (hm : 2 ^ 52 ≤ m)
    (hn : Sized n (m * 2 ^ e)) : Carries x (m * 2 ^ e) 0 n :=
  ⟨m * 2 ^ e, ⟨m, e, isFull_of_value h hm, rfl⟩, .refl _, hn⟩

theorem carries_widen (hf : reading f = .number false a) (ha : 0 < a) :
    Carries (widen f) a 1 150 := by
  obtain ⟨m, e, hv, rfl⟩ := form_of_reading hf
  obtain ⟨hlt, hl, hu⟩ := bounds_of_ofSingle hv
  have hsize : Sized 149 ((m : ℝ) * 2 ^ e) := by
    have hm : (1 : ℝ) ≤ m := by exact_mod_cast Nat.one_le_iff_ne_zero.mpr (ne_zero_of_pos ha)
    constructor
    · rw [← zpow_natCast, mul_assoc, ← zpow_add₀ two_ne_zero]
      exact one_le_mul_of_one_le_of_one_le hm (one_le_zpow₀ one_le_two (by push_cast; omega))
    · have hoverflow := (grid_of_reading hf).lt_overflow
      rw [← zpow_natCast]
      exact hoverflow.le.trans (zpow_le_zpow_right₀ one_le_two (by norm_num))
  rw [widen, hv]
  exact (standsNear_toDouble (hsize.ordinary (by decide))).carries hsize

/-- Half of a degree in radians, as it is computed. -/
noncomputable def halfDegree : ℝ := (5030569068109113 : ℕ) / (2 ^ 59 : ℕ)

theorem carries_angle (hf : reading f = .number false a) (ha : 0 < a) :
    Carries (toRadians (widen f * 0.5)) (a * halfDegree) 3 159 := by
  have hhalf : Carries 0.5 ((2 ^ 52 : ℕ) * 2 ^ (-53 : ℤ)) 0 1 :=
    carries_of_value (by decide +kernel) le_rfl ⟨by norm_num, by norm_num⟩
  have hdegree : Carries (3.141592653589793 / 180) ((5030569068109113 : ℕ) * 2 ^ (-58 : ℤ)) 0 6 :=
    carries_of_value (by decide +kernel) (by norm_num) ⟨by norm_num, by norm_num⟩
  have hproduct : ((2 ^ 52 : ℕ) * 2 ^ (-53 : ℤ) * ((5030569068109113 : ℕ) * 2 ^ (-58 : ℤ)) : ℝ) =
      halfDegree := by
    norm_num [halfDegree]
  have h := ((carries_widen hf ha).mul hhalf (by decide)).mul hdegree (by decide)
  rwa [mul_assoc a, hproduct] at h

theorem quadrant_of_lt (hf : reading f = .number false a) (ha : a < 180) (hp : 0 < p)
    (h : Close 3 p (a * halfDegree)) : Quadrant p := by
  have hlast : a ≤ 180 - 2 ^ (-16 : ℤ) := by
    obtain ⟨n, rfl⟩ | ⟨hlt, -⟩ := (grid_of_reading hf).multiple_or_lt (-16)
    · have hn : n < 180 * 2 ^ 16 := by
        rw [zpow_neg, ← div_eq_mul_inv, div_lt_iff₀ (by positivity)] at ha
        exact_mod_cast ha
      have hn' : (n : ℝ) + 1 ≤ 180 * 2 ^ 16 := by exact_mod_cast hn
      norm_num
      linarith
    · norm_num at hlt ⊢
      linarith
  refine ⟨hp, h.le.trans ?_⟩
  have hpi := Real.pi_gt_d20
  have hdegree : halfDegree * grain ^ 3 ≤ 0.0087266462599717 := by norm_num [halfDegree, grain]
  have hstep : a * (halfDegree * grain ^ 3) ≤ (180 - 2 ^ (-16 : ℤ)) * 0.0087266462599717 :=
    mul_le_mul hlast hdegree (by unfold halfDegree grain; positivity) (by norm_num)
  norm_num at hstep ⊢
  linarith

/-- Two radians in degrees, as they are computed. -/
noncomputable def twoRadians : ℝ := (8063664102031864 : ℕ) / (2 ^ 46 : ℕ)

/-- What is computed, by the angle it is computed from. -/
theorem nearest_flatExtent (hf : reading f = .number false a) (ha : 0 < a) (ha' : a < 180) :
    ∃ p r, Quadrant p ∧ Close 3 p (a * halfDegree) ∧ Close 6 r (tan p * twoRadians) ∧ 0 ≤ r ∧
      Nearest (flatExtent f) false r := by
  obtain ⟨p, hp, hclose, hsize⟩ := carries_angle hf ha
  have hquadrant := quadrant_of_lt hf ha' hsize.pos hclose
  have htwo : Carries 2 ((2 ^ 52 : ℕ) * 2 ^ (-51 : ℤ)) 0 1 :=
    carries_of_value (by decide +kernel) le_rfl ⟨by norm_num, by norm_num⟩
  have hradian : Carries (180 / 3.141592653589793) ((8063664102031864 : ℕ) * 2 ^ (-47 : ℤ)) 0 6 :=
    carries_of_value (by decide +kernel) (by norm_num) ⟨by norm_num, by norm_num⟩
  have htan := carries_tangent hp hquadrant hsize (by decide) (by decide)
  obtain ⟨r, hr, hclose', hsize'⟩ := (htwo.mul htan (by decide)).mul hradian (by decide)
  refine ⟨p, r, hquadrant, hclose, ?_, hsize'.pos.le, ?_⟩
  · have hproduct : ((2 ^ 52 : ℕ) * 2 ^ (-51 : ℤ) * ((8063664102031864 : ℕ) * 2 ^ (-47 : ℤ)) : ℝ) =
        twoRadians := by
      norm_num [twoRadians]
    rwa [mul_comm _ (tan p), mul_assoc, hproduct] at hclose'
  · obtain ⟨m, e, hm, rfl⟩ := hr
    rw [flatExtent, narrow, toDegrees, hm.value]
    exact nearest_toSingle false m e

end Angles

theorem number_of_between (hf : 0 < f) (hf' : f < 180) :
    ∃ a, reading f = .number false a ∧ 0 < a ∧ a < 180 := by
  have hbound : reading 180 = .number false 180 := by
    have hv : Value.ofSingle 180 = .finite false 11796480 (-16) := by decide +kernel
    rw [reading, hv]
    norm_num [Value.reading]
  obtain hinf | ⟨a, ha, hpos⟩ := infinite_or_number_of_pos hf
  · have hinf' := infinite_of_le hinf (le_of_lt hf')
    rw [hbound] at hinf'
    cases hinf'
  · obtain ⟨e, u, he, hu, hlt⟩ := lt_iff.mp hf'
    rw [ha] at he
    rw [hbound] at hu
    cases he
    cases hu
    exact ⟨a, ha, hpos, EReal.coe_lt_coe_iff.mp hlt⟩

/-- For all angles that a field of view may have. -/
theorem flatExtent_mono (hf : 0 < f) (hfg : f ≤ g) (hg : g < 180) :
    flatExtent f ≤ flatExtent g := by
  obtain ⟨a, ha, hapos, ha'⟩ := number_of_between hf (Binary.lt_of_le_of_lt hfg hg)
  obtain ⟨b, hb, hbpos, hb'⟩ := number_of_between (Binary.lt_of_lt_of_le hf hfg) hg
  obtain ⟨p, r, hp, hpa, hrp, hr, hnearest⟩ := nearest_flatExtent ha hapos ha'
  obtain ⟨q, s, hq, hqb, hsq, hs, hnearest'⟩ := nearest_flatExtent hb hbpos hb'
  obtain rfl | hgap := eq_or_gap ha hb hapos ((le_iff_signed ha hb).mp hfg)
  · exact le_refl_of_not_nan hnearest.not_nan
  · have hdegree : 0 ≤ halfDegree := by unfold halfDegree; positivity
    have hradian : 0 ≤ twoRadians := by unfold twoRadians; positivity
    have hangles : p * grain ^ 12 ≤ q := by
      refine hpa.apart (k := 3) hqb ?_
      calc a * halfDegree * grain ^ 18 = a * grain ^ 18 * halfDegree := by ring
        _ ≤ a * (1 + 2 ^ (-24 : ℤ)) * halfDegree := by gcongr; exact grain_pow_le
        _ ≤ b * halfDegree := by gcongr
    have htangents : tan p * grain ^ 12 ≤ tan q :=
      tan_apart hp.pos (one_le_pow₀ one_le_grain) hangles hq.lt
    have hextents : r * grain ^ 0 ≤ s := by
      refine hrp.apart (k := 6) hsq ?_
      calc tan p * twoRadians * grain ^ (0 + 2 * 6) = tan p * grain ^ 12 * twoRadians := by ring
        _ ≤ tan q * twoRadians := by gcongr
    rw [pow_zero, mul_one] at hextents
    exact le_of_nearest hnearest hnearest' hr hs hextents

end VisibleDifference.Binary
