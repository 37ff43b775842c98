import VisibleDifference.Proofs.Single.Comparisons
import VisibleDifference.Proofs.Single.Series

/-!
# Ranges of elementary functions

Logarithms and powers are computed in fixed point with an error, but their clamps are exact: the
logarithm of a number up to `2 ^ k` is at most `k`, and two to the power of at most `k` is at most
`2 ^ k`. So powers stay within the bounds of the exact ones wherever a bound is a power of two.
-/

namespace VisibleDifference.Binary

variable {x y : Float32} {s : Bool} {b p q : ℝ}

namespace Value

theorem logOf_le {m : ℕ} {e k : ℤ} (hm : m ≠ 0) (h : (m : ℝ) * 2 ^ e ≤ 2 ^ k) :
    logOf m e ≤ k * 2 ^ 96 :=
  (logOf_mono hm one_ne_zero (by simpa using h)).trans_eq (logOf_one k)

theorem logOf_nonneg {m : ℕ} {e : ℤ} (hm : m ≠ 0) (h : 1 ≤ (m : ℝ) * 2 ^ e) : 0 ≤ logOf m e := by
  rw [← zero_mul (2 ^ 96 : ℤ), ← logOf_one 0]
  exact logOf_mono one_ne_zero hm (by simpa using h)

theorem powerOfTwo_le {t k : ℤ} (hl : -200 ≤ k) (hu : k ≤ 200) (ht : t ≤ k * 2 ^ 96) (s : Bool) :
    (powerOfTwo s t).size ≤ 2 ^ k :=
  (size_powerOfTwo_mono ht s).trans_eq (size_powerOfTwo hl hu s)

theorem one_le_powerOfTwo {t : ℤ} (ht : 0 ≤ t) (s : Bool) : 1 ≤ (powerOfTwo s t).size := by
  rw [← zpow_zero (2 : ℝ), ← size_powerOfTwo (by norm_num) (by norm_num) s]
  exact size_powerOfTwo_mono (by simpa using ht) s

theorem nearest_powerOfTwo (s : Bool) (t : ℤ) :
    Nearest (powerOfTwo s t).toSingle s (powerOfTwo s t).size := by
  rw [powerOfTwo_eq]
  exact nearest_toSingle _ _ _

theorem rounds_powerOfTwo (s : Bool) (t : ℤ) :
    Rounds (powerOfTwo s t).toSingle s (powerOfTwo s t).size :=
  (nearest_powerOfTwo s t).rounds

end Value

section Power

variable {m n : ℕ} {e f : ℤ}

/-- A power of a positive number with a positive exponent. -/
theorem power_eq (hx : Value.ofSingle x = .finite false m e) (hm : m ≠ 0)
    (hy : Value.ofSingle y = .finite s n f) (hn : n ≠ 0) :
    power x y =
      (Value.powerOfTwo false
        (Value.shifted (Value.signedNat s n * Value.logOf m e) f)).toSingle := by
  have hz : (Value.finite s n f).isZero = false := by simpa [Value.isZero] using hn
  rw [power, hx, hy, Value.power, hz]
  simp [hm]

theorem power_zero (hx : Value.ofSingle x = .finite false 0 e)
    (hy : Value.ofSingle y = .finite false n f) (hn : n ≠ 0) :
    reading (power x y) = .number false 0 := by
  have hz : (Value.finite false n f).isZero = false := by simpa [Value.isZero] using hn
  rw [power, hx, hy, Value.power, hz]
  exact reading_toSingle_zero _ _

theorem power_infinite (hx : Value.ofSingle x = .infinite false)
    (hy : Value.ofSingle y = .finite s n f) (hn : n ≠ 0) :
    reading (power x y) = if s then .number false 0 else .infinite false := by
  have hz : (Value.finite s n f).isZero = false := by simpa [Value.isZero] using hn
  rw [power, hx, hy, Value.power, hz]
  cases s with
  | false => exact reading_toSingle_infinite _
  | true => exact reading_toSingle_zero _ _

end Power

/-- A logarithm times an exponent, as it is rounded down. -/
theorem shifted_product_le {m n : ℕ} {e f : ℤ} {k l : ℕ} (hm : m ≠ 0)
    (hle : (m : ℝ) * 2 ^ e ≤ 2 ^ k) (hl : (n : ℝ) * 2 ^ f ≤ l) :
    Value.shifted (Value.signedNat false n * Value.logOf m e) f ≤ (k * l : ℤ) * 2 ^ 96 := by
  have hlog : Value.logOf m e ≤ k * 2 ^ 96 := Value.logOf_le hm (by exact_mod_cast hle)
  have hlog' : ((Value.logOf m e : ℤ) : ℝ) ≤ k * 2 ^ 96 := by exact_mod_cast hlog
  apply Value.shifted_le
  rw [Value.signedNat, if_neg (by decide)]
  simp only [Int.cast_mul, Int.cast_natCast, Int.cast_pow, Int.cast_ofNat]
  calc (n : ℝ) * Value.logOf m e * 2 ^ f = n * 2 ^ f * Value.logOf m e := by ring
    _ ≤ n * 2 ^ f * (k * 2 ^ 96) := by gcongr
    _ ≤ l * (k * 2 ^ 96) := by gcongr
    _ = k * l * 2 ^ 96 := by ring

/-- A power of a number of at most `2 ^ k` with a positive exponent of at most `l`. -/
theorem upTo_power {k l : ℕ} (hx : UpTo (2 ^ k) x) (hl : UpTo l y) (hy : 0 < y)
    (hb : k * l ≤ 127) : UpTo (2 ^ (k * l)) (power x y) := by
  obtain ⟨p, hp, hle⟩ := hx
  obtain ⟨m, e, hm, rfl⟩ := form_of_reading hp
  obtain ⟨q, hq, hpos, hql⟩ := hl.pos hy
  obtain ⟨n, f, hn, rfl⟩ := form_of_reading hq
  have hn' := ne_zero_of_pos hpos
  by_cases hz : m = 0
  · subst hz
    exact ⟨0, power_zero hm hn hn', by positivity⟩
  rw [power_eq hm hz hn hn']
  have ht : Value.shifted (Value.signedNat false n * Value.logOf m e) f ≤
      ((k * l : ℕ) : ℤ) * 2 ^ 96 := by exact_mod_cast shifted_product_le hz hle hql
  have hbound := Value.powerOfTwo_le (by omega) (by omega) ht false
  rw [zpow_natCast] at hbound
  exact (Value.rounds_powerOfTwo _ _).upTo (Grid.two_pow hb) hbound

/-- A power of a number of at least one with a positive exponent. -/
theorem one_le_power (hx : AtLeast 1 x) (hb : UpTo b y) (hy : 0 < y) : AtLeast 1 (power x y) := by
  obtain ⟨q, hq, hpos, -⟩ := hb.pos hy
  obtain ⟨n, f, hn, rfl⟩ := form_of_reading hq
  have hn' := ne_zero_of_pos hpos
  obtain hx | ⟨p, hp, hle⟩ := hx
  · exact .inl (by rw [power_infinite (ofSingle_infinite hx) hn hn']; rfl)
  obtain ⟨m, e, hm, rfl⟩ := form_of_reading hp
  have hm' := ne_zero_of_pos (one_pos.trans_le hle)
  rw [power_eq hm hm' hn hn']
  have ht : 0 ≤ Value.shifted (Value.signedNat false n * Value.logOf m e) f :=
    Value.shifted_nonneg (mul_nonneg (Int.natCast_nonneg n) (Value.logOf_nonneg hm' hle)) f
  exact (Value.rounds_powerOfTwo _ _).atLeast Grid.one (Value.one_le_powerOfTwo ht false)

/-- A power of a number of at least one with a negative exponent. -/
theorem power_neg_le_one (hx : AtLeast 1 x) (hb : UpTo b y) (hy : 0 < y) :
    UpTo 1 (power x (-y)) := by
  obtain ⟨q, hq, hpos, -⟩ := hb.pos hy
  have hneg : reading (-y) = .number true q := by rw [reading_neg, hq]; rfl
  obtain ⟨n, f, hn, rfl⟩ := form_of_reading hneg
  have hn' := ne_zero_of_pos hpos
  obtain hx | ⟨p, hp, hle⟩ := hx
  · exact ⟨0, by rw [power_infinite (ofSingle_infinite hx) hn hn']; rfl, zero_le_one⟩
  obtain ⟨m, e, hm, rfl⟩ := form_of_reading hp
  have hm' := ne_zero_of_pos (one_pos.trans_le hle)
  rw [power_eq hm hm' hn hn']
  have ht : Value.shifted (Value.signedNat true n * Value.logOf m e) f ≤ (0 : ℤ) * 2 ^ 96 := by
    have hlog : (0 : ℝ) ≤ (Value.logOf m e : ℤ) := by exact_mod_cast Value.logOf_nonneg hm' hle
    apply Value.shifted_le
    rw [Value.signedNat, if_pos rfl]
    push_cast
    rw [neg_mul, neg_mul, neg_nonpos]
    positivity
  have hbound := Value.powerOfTwo_le (by norm_num) (by norm_num) ht false
  rw [zpow_zero] at hbound
  exact (Value.rounds_powerOfTwo _ _).upTo Grid.one hbound

/-- A power of a number without a sign has none, whatever the exponent. -/
theorem nonneg_power (hx : AtLeast 0 x) (hy : Value.ofSingle y ≠ .nan) :
    AtLeast 0 (power x y) := by
  have hnumber (m : ℕ) (e : ℤ) : AtLeast 0 (Value.finite false m e).toSingle :=
    (rounds_toSingle false m e).nonneg (by positivity)
  have hinf : AtLeast 0 (Value.infinite false).toSingle := .inl (reading_toSingle_infinite false)
  have hextreme (vanishes : Bool) : AtLeast 0 (Value.extremePower false vanishes).toSingle := by
    cases vanishes with
    | false => exact hinf
    | true => exact hnumber 0 0
  have hlimit (v : Value) (t : Bool) : AtLeast 0 (v.infinitePower t).toSingle := by
    unfold Value.infinitePower
    cases v.magnitudeToOne with
    | eq => exact hnumber 1 0
    | gt => exact hextreme t
    | lt => cases t with
      | false => exact hnumber 0 0
      | true => exact hinf
  rw [power]
  unfold Value.power
  split_ifs
  · exact hnumber 1 0
  obtain hx | ⟨p, hp, -⟩ := hx
  · rw [ofSingle_infinite hx]
    cases hv : Value.ofSingle y with
    | nan => exact absurd hv hy
    | infinite t => exact hlimit _ t
    | finite t n f => exact hextreme t
  · obtain ⟨m, e, hm, rfl⟩ := form_of_reading hp
    rw [hm]
    cases hv : Value.ofSingle y with
    | nan => exact absurd hv hy
    | infinite t => exact hlimit _ t
    | finite t n f =>
      simp only [Bool.false_and, if_false, Bool.false_eq_true]
      split_ifs
      · exact hextreme _
      · exact hnumber _ _

theorem unsigned_power (hx : AtLeast 0 x) (y : Float32) : Unsigned (power x y) := by
  by_cases hy : Value.ofSingle y = .nan
  · have hnan : (Value.ofSingle x).power .nan = .nan ∨ (Value.ofSingle x).power .nan = .one := by
      cases hv : Value.ofSingle x with
      | nan => exact .inl rfl
      | infinite s => exact .inl rfl
      | finite s m e =>
        have h : (Value.finite s m e).power .nan =
          if (Value.finite s m e).isOne then .one else .nan := rfl
        rw [h]
        exact (ite_eq_or_eq _ _ _).symm
    rw [power, hy]
    obtain h | h := hnan <;> rw [h]
    · exact .inl reading_toSingle_nan
    · exact .inr ((rounds_toSingle false 1 0).nonneg (by positivity))
  · exact .inr (nonneg_power hx hy)

/-- The exponential of a number that is not positive. -/
theorem exponential_le_one
    (hx : reading x = .infinite true ∨ ∃ s q, reading x = .number s q ∧ signed s q ≤ 0) :
    UpTo 1 (exponential x) := by
  obtain hx | ⟨s, q, hq, hneg⟩ := hx
  · rw [exponential, ofSingle_infinite hx]
    exact ⟨0, reading_toSingle_zero _ _, zero_le_one⟩
  obtain ⟨m, e, hm, rfl⟩ := form_of_reading hq
  rw [exponential, hm, Value.exponential]
  have hs : Value.shifted (Value.signedNat s m) (e + 2 * FixedPoint.bits) ≤ 0 := by
    apply Value.shifted_le
    rw [zpow_add₀ two_ne_zero, signedNat_eq, ← mul_assoc, ← signed_mul, Int.cast_zero]
    exact mul_nonpos_of_nonpos_of_nonneg hneg (by positivity)
  have ht : Value.shifted (Value.signedNat s m) (e + 2 * FixedPoint.bits) /
      (2 * FixedPoint.halfLogTwo) ≤ 0 * 2 ^ 96 := by
    rw [zero_mul]
    exact Int.ediv_le_of_le_mul (by decide) (by simpa using hs)
  have hbound := Value.powerOfTwo_le (by norm_num) (by norm_num) ht false
  rw [zpow_zero] at hbound
  exact (Value.rounds_powerOfTwo _ _).upTo Grid.one hbound

/-- Far below zero the exponential is too small for a number other than zero. -/
theorem exponential_vanishes
    (hx : reading x = .infinite true ∨ ∃ q, reading x = .number true q ∧ 2 ^ 8 ≤ q) :
    reading (exponential x) = .number false 0 := by
  obtain hx | ⟨q, hq, hlarge⟩ := hx
  · rw [exponential, ofSingle_infinite hx]
    exact reading_toSingle_zero _ _
  obtain ⟨m, e, hm, rfl⟩ := form_of_reading hq
  rw [exponential, hm, Value.exponential]
  have hs : Value.shifted (Value.signedNat true m) (e + 2 * FixedPoint.bits) ≤
      -(2 ^ 8 * 2 ^ 192 : ℤ) := by
    have hexponent : (2 * FixedPoint.bits : ℤ) = 192 := rfl
    apply Value.shifted_le
    rw [Value.signedNat, if_pos rfl, hexponent, zpow_add₀ two_ne_zero]
    simp only [Int.cast_neg, Int.cast_mul, Int.cast_natCast, Int.cast_pow, Int.cast_ofNat]
    rw [neg_mul, neg_le_neg_iff, ← mul_assoc, zpow_ofNat]
    exact mul_le_mul_of_nonneg_right hlarge (by positivity)
  have ht : Value.shifted (Value.signedNat true m) (e + 2 * FixedPoint.bits) /
      (2 * FixedPoint.halfLogTwo) ≤ -Value.exponentLimit := by
    refine Int.ediv_le_of_le_mul (by decide) (hs.trans ?_)
    decide +kernel
  generalize Value.shifted (Value.signedNat true m) (e + 2 * FixedPoint.bits) /
    (2 * FixedPoint.halfLogTwo) = t at ht
  have hclamp : Value.powerOfTwo false t = Value.powerOfTwo false (-Value.exponentLimit) := by
    have hlimit : -Value.exponentLimit ≤ Value.exponentLimit := by decide
    rw [Value.powerOfTwo, Value.powerOfTwo, min_eq_right (ht.trans hlimit), max_eq_left ht,
      min_eq_right hlimit, max_self]
  have hv : Value.ofSingle (Value.powerOfTwo false (-Value.exponentLimit)).toSingle =
      .finite false 0 (-149) := by decide +kernel
  rw [hclamp, reading, hv]
  simp [Value.reading]

theorem power_nan (hx : reading x = .nan) (hy : Value.ofSingle y = .finite s n f) (hn : n ≠ 0) :
    reading (power x y) = .nan := by
  have hz : (Value.finite s n f).isZero = false := by simpa [Value.isZero] using hn
  have hx' : Value.ofSingle x = .nan := by
    rw [reading] at hx
    cases hv : Value.ofSingle x with
    | nan => rfl
    | infinite | finite => rw [hv] at hx; cases hx
  rw [power, hx', hy, Value.power, hz]
  exact reading_toSingle_nan

/-- Of a zero with any sign a power that is not an odd integer is zero. -/
theorem power_of_zero (hx : reading x = .number s 0) {n : ℕ} {f : ℤ}
    (hy : Value.ofSingle y = .finite false n f) (hn : n ≠ 0)
    (hodd : (Value.finite false n f).isOddInteger = false) :
    reading (power x y) = .number false 0 := by
  obtain ⟨m, e, hm, hq⟩ := form_of_reading hx
  have hz : (Value.finite false n f).isZero = false := by simpa [Value.isZero] using hn
  have hm' : m = 0 := by
    have hpos : (2 : ℝ) ^ e ≠ 0 := zpow_ne_zero e two_ne_zero
    exact_mod_cast (mul_eq_zero.mp hq.symm).resolve_right hpos
  rw [power, hm, hy, Value.power, hz, hm', hodd, Bool.and_false]
  exact reading_toSingle_zero _ _

theorem rootBits_cube_le (n k : ℕ) :
    Value.rootBits n k * Value.rootBits n k * Value.rootBits n k ≤ n := by
  induction k generalizing n with
  | zero => exact Nat.zero_le n
  | succ k ih =>
    have hr := ih (n >>> 3)
    have hn : 8 * (n >>> 3) ≤ n := by
      rw [Nat.shiftRight_eq_div_pow]
      omega
    rw [Value.rootBits]
    split_ifs with hc
    · exact hc
    · set r := Value.rootBits (n >>> 3) k
      calc 2 * r * (2 * r) * (2 * r) = 8 * (r * r * r) := by ring
        _ ≤ n := by omega

/-- The cube root of a number is a number. -/
theorem bounded_cubeRoot (hx : reading x = .number s q) : Bounded (2 ^ 43) (cubeRoot x) := by
  obtain ⟨m, e, hm, rfl⟩ := form_of_reading hx
  obtain ⟨hlt, hl, hu⟩ := bounds_of_ofSingle hm
  rw [cubeRoot, hm, Value.cubeRoot]
  set shift := 84 + (e % 3).toNat with hshift
  set r := Value.rootBits (m <<< shift) ((m <<< shift).log2 / 3 + 1)
  set i := 2 * r + if r * r * r = m <<< shift then 0 else 1
  have hr : r < 2 ^ 37 := by
    by_contra! hge
    have hcube : 2 ^ 37 * 2 ^ 37 * 2 ^ 37 ≤ r * r * r := by gcongr
    have hle : r * r * r ≤ m <<< shift := rootBits_cube_le _ _
    have hwidth : shift ≤ 86 := by omega
    have hn : m <<< shift < 2 ^ 24 * 2 ^ 86 := by
      rw [Nat.shiftLeft_eq]
      exact Nat.mul_lt_mul_of_lt_of_le hlt (Nat.pow_le_pow_right (by decide) hwidth) (by positivity)
    omega
  have hi : (i : ℝ) ≤ 2 ^ (38 : ℤ) := by
    have : i ≤ 2 ^ 38 := by
      have hif : (if r * r * r = m <<< shift then 0 else 1) ≤ 1 := by split_ifs <;> decide
      omega
    exact_mod_cast this
  have he : (e - shift) / 3 - 1 ≤ 5 := by omega
  refine (rounds_toSingle _ _ _).bounded (Grid.two_pow (by decide)) ?_
  calc (i : ℝ) * 2 ^ ((e - shift) / 3 - 1) ≤ 2 ^ (38 : ℤ) * 2 ^ (5 : ℤ) := by gcongr; norm_num
    _ = 2 ^ 43 := by norm_num

end VisibleDifference.Binary
