import VisibleDifference.Proofs.Single.Monotone
import VisibleDifference.Proofs.Single.Powers

/-!
# Elementary functions keep the order

Decimal logarithms of positive numbers, powers with a positive exponent and powers of ten grow with
the argument. What they are rounded from does, and rounding keeps the order; zeros and infinities are
the limits on both sides.
-/

namespace VisibleDifference.Binary

variable {x y c : Float32} {s t : Bool} {p q b : ℝ} {m n : ℕ} {e f : ℤ}

/-- What is not below a positive number is infinite, or both are numbers without a sign. -/
theorem infinite_or_numbers_of_le (hx : 0 < x) (h : x ≤ y) : reading y = .infinite false ∨
    ∃ p q, reading x = .number false p ∧ reading y = .number false q ∧ 0 < p ∧ p ≤ q := by
  obtain hx | ⟨p, hp, hpos⟩ := infinite_or_number_of_pos hx
  · exact .inl (infinite_of_le hx h)
  obtain hy | ⟨t, q, hq, hpq⟩ := infinite_or_number_of_le hp h
  · exact .inl hy
  rw [signed_false] at hpq
  cases t with
  | false => exact .inr ⟨p, q, hp, hq, hpos, hpq⟩
  | true =>
    rw [signed_true] at hpq
    linarith [size_nonneg hq]

section Logarithm

theorem nearest_log10 (hx : Value.ofSingle x = .finite false m e) (hm : m ≠ 0) :
    Nearest (log10 x) (decide (Value.logOf m e < 0))
      (Value.ratio (decide (Value.logOf m e < 0)) (Value.logOf m e).natAbs (FixedPoint.log2 10)
        0).size := by
  rw [log10, hx, Value.log10, if_neg hm]
  exact nearest_toSingle _ _ _

theorem reading_log10_infinite (hx : reading x = .infinite false) :
    reading (log10 x) = .infinite false := by
  rw [log10, ofSingle_infinite hx]
  exact reading_toSingle_infinite false

theorem log10_not_nan (hx : 0 < x) : reading (log10 x) ≠ .nan := by
  obtain hx | ⟨p, hp, hpos⟩ := infinite_or_number_of_pos hx
  · rw [reading_log10_infinite hx]
    exact fun h => nomatch h
  · obtain ⟨m, e, hm, rfl⟩ := form_of_reading hp
    exact (nearest_log10 hm (ne_zero_of_pos hpos)).not_nan

theorem log10_mono (hx : 0 < x) (h : x ≤ y) : log10 x ≤ log10 y := by
  obtain hy | ⟨p, q, hp, hq, hpos, hpq⟩ := infinite_or_numbers_of_le hx h
  · exact le_of_infinite (log10_not_nan hx) (reading_log10_infinite hy)
  obtain ⟨m, e, hm, rfl⟩ := form_of_reading hp
  obtain ⟨n, f, hn, rfl⟩ := form_of_reading hq
  have hm' := ne_zero_of_pos hpos
  have hn' := ne_zero_of_pos (hpos.trans_le hpq)
  exact le_of_nearest (nearest_log10 hm hm') (nearest_log10 hn hn') (Value.size_nonneg _)
    (Value.size_nonneg _) (Value.signed_ratio_mono (Value.logOf_mono hm' hn' hpq) _)

end Logarithm

section Power

/-- A power of a positive number is the rounded power of two. -/
theorem nearest_power (hx : Value.ofSingle x = .finite false m e) (hm : m ≠ 0)
    (hy : Value.ofSingle y = .finite s n f) :
    Nearest (power x y) false
      (Value.powerOfTwo false
        (Value.shifted (Value.signedNat s n * Value.logOf m e) f)).size := by
  by_cases hn : n = 0
  · subst hn
    have hone : power x y = Value.one.toSingle := by
      rw [power, hy]
      exact congrArg Value.toSingle (if_pos rfl)
    have ht : Value.shifted (Value.signedNat s 0 * Value.logOf m e) f = 0 := by
      rw [Value.shifted_eq_floor, Int.cast_mul, signedNat_eq]
      cases s <;> simp
    have hsize : (Value.powerOfTwo false 0).size = (1 : ℕ) * 2 ^ (0 : ℤ) := by
      simpa using Value.size_powerOfTwo (k := 0) (by norm_num) (by norm_num) false
    rw [hone, ht, hsize]
    exact nearest_toSingle _ _ _
  · rw [power_eq hx hm hy hn]
    exact Value.nearest_powerOfTwo _ _

theorem power_mono (hc : 0 < c) (hb : UpTo b c) (hx : 0 < x) (h : x ≤ y) :
    power x c ≤ power y c := by
  obtain ⟨r, hr, hrpos, -⟩ := hb.pos hc
  obtain ⟨k, g, hk, rfl⟩ := form_of_reading hr
  have hk' := ne_zero_of_pos hrpos
  obtain hy | ⟨p, q, hp, hq, hpos, hpq⟩ := infinite_or_numbers_of_le hx h
  · have hinf : reading (power y c) = .infinite false := power_infinite (ofSingle_infinite hy) hk hk'
    refine le_of_infinite ?_ hinf
    obtain hx | ⟨p, hp, hpos⟩ := infinite_or_number_of_pos hx
    · rw [power_infinite (ofSingle_infinite hx) hk hk']
      exact fun h => nomatch h
    · obtain ⟨m, e, hm, rfl⟩ := form_of_reading hp
      exact (nearest_power hm (ne_zero_of_pos hpos) hk).not_nan
  obtain ⟨m, e, hm, rfl⟩ := form_of_reading hp
  obtain ⟨n, f, hn, rfl⟩ := form_of_reading hq
  have hm' := ne_zero_of_pos hpos
  have hn' := ne_zero_of_pos (hpos.trans_le hpq)
  have hlog : Value.logOf m e ≤ Value.logOf n f := Value.logOf_mono hm' hn' hpq
  have hshift : Value.shifted (Value.signedNat false k * Value.logOf m e) g ≤
      Value.shifted (Value.signedNat false k * Value.logOf n f) g := by
    apply Value.shifted_mono
    have hproduct : Value.signedNat false k * Value.logOf m e ≤
        Value.signedNat false k * Value.logOf n f :=
      Int.mul_le_mul_of_nonneg_left hlog (Int.natCast_nonneg k)
    gcongr
  exact le_of_nearest (nearest_power hm hm' hk) (nearest_power hn hn' hk) (Value.size_nonneg _)
    (Value.size_nonneg _) (Value.size_powerOfTwo_mono hshift false)

theorem ofSingle_ten : Value.ofSingle 10 = .finite false 0xa00000 (-20) := by decide +kernel

theorem power_ten_infinite (hx : reading x = .infinite s) :
    reading (power 10 x) = if s then .number false 0 else .infinite false := by
  rw [power, ofSingle_ten, ofSingle_infinite hx]
  cases s with
  | false => exact reading_toSingle_infinite false
  | true => exact reading_toSingle_zero false 0

theorem nonneg_power_ten (hx : reading x ≠ .nan) : AtLeast 0 (power 10 x) := by
  refine nonneg_power (atLeast_of_isAtLeast (k := 0) (by decide +kernel) |>.mono (by norm_num)) ?_
  intro hv
  rw [reading, hv] at hx
  exact hx rfl

/-- Powers of ten grow with the exponent, from zero to infinity. -/
theorem power_ten_mono (h : x ≤ y) : power 10 x ≤ power 10 y := by
  obtain ⟨hx', hy⟩ := not_nan_of_le h
  cases hx : reading x with
  | nan => exact absurd hx hx'
  | infinite s =>
    cases s with
    | true => exact zero_le_of_atLeast (nonneg_power_ten hy) (power_ten_infinite hx)
    | false =>
      have hinf := power_ten_infinite hx
      refine le_of_infinite ?_ (power_ten_infinite (infinite_of_le hx h))
      rw [hinf]
      exact fun h => nomatch h
  | number s p =>
    obtain ⟨m, e, hm, rfl⟩ := form_of_reading hx
    have hnear := nearest_power ofSingle_ten (by decide) hm
    obtain hy | ⟨t, q, hq, hpq⟩ := infinite_or_number_of_le hx h
    · exact le_of_infinite hnear.not_nan (power_ten_infinite hy)
    obtain ⟨n, f, hn, rfl⟩ := form_of_reading hq
    refine le_of_nearest hnear (nearest_power ofSingle_ten (by decide) hn) (Value.size_nonneg _)
      (Value.size_nonneg _) (Value.size_powerOfTwo_mono (Value.shifted_mono ?_) false)
    have hlog : (0 : ℝ) ≤ (Value.logOf 0xa00000 (-20) : ℤ) := by
      exact_mod_cast Value.logOf_nonneg (by decide) (by norm_num)
    rw [signed_mul, signed_mul, ← signedNat_eq, ← signedNat_eq] at hpq
    rw [Int.cast_mul, Int.cast_mul, mul_right_comm, mul_right_comm _ _ ((2 : ℝ) ^ f)]
    gcongr

end Power

end VisibleDifference.Binary
