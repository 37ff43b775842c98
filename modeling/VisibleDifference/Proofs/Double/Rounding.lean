import VisibleDifference.Proofs.Single.Rounding

/-!
# Double-precision numbers

Angles are computed in double precision with positive numbers of ordinary size, far from overflow
and underflow. Such a number uses all 53 digits of its mantissa, so that its bits tell the mantissa
and the exponent. A product and a change of precision round to the nearest number; for what is derived
here it is enough that the result is off by at most one part in `2 ^ 53`.
-/

namespace VisibleDifference.Binary

open Float.Model (Format UnpackedFloat totalExponent)
open Float.Model.UnpackedFloat

variable {x y : Float} {m k : ℕ} {e g : ℤ} {p q r : ℝ}

section Bits

/-- The mantissas and exponents of double precision that use all digits. -/
structure Full (m : ℕ) (e : ℤ) : Prop where
  full : 2 ^ 52 ≤ m
  lt : m < 2 ^ 53
  least : -1074 ≤ e
  greatest : e ≤ 971

theorem Full.pos (h : Full m e) : 0 < m := Nat.lt_of_lt_of_le (by decide) h.full

/-- The bits of the number without a sign. -/
def fullBits (m : ℕ) (e : ℤ) : ℕ := (e + 1075).toNat * 2 ^ 52 + (m - 2 ^ 52)

theorem Full.fields (h : Full m e) : fullBits m e / 2 ^ 63 = 0 ∧
    fullBits m e / 2 ^ 52 % 2 ^ 11 = (e + 1075).toNat ∧
    fullBits m e % 2 ^ 52 = m - 2 ^ 52 := by
  obtain ⟨hfull, hlt, hleast, hgreatest⟩ := h
  unfold fullBits
  omega

theorem toNat_fields (b : UInt64) :
    (b >>> 63).toNat = b.toNat / 2 ^ 63 ∧
      ((b >>> 52) &&& 0x7ff).toNat = b.toNat / 2 ^ 52 % 2 ^ 11 ∧
      (b &&& 0xfffffffffffff).toNat = b.toNat % 2 ^ 52 := by
  refine ⟨?_, ?_, ?_⟩
  · rw [UInt64.toNat_shiftRight]
    exact Nat.shiftRight_eq_div_pow _ 63
  · rw [UInt64.toNat_and, UInt64.toNat_shiftRight, ← Nat.shiftRight_eq_div_pow]
    exact Nat.and_two_pow_sub_one_eq_mod _ 11
  · rw [UInt64.toNat_and]
    exact Nat.and_two_pow_sub_one_eq_mod _ 52

theorem toNat_unpackedFields (b : BitVec 64) :
    (@unpackSign Format.binary64 b).toNat = b.toNat / 2 ^ 63 ∧
      (@unpackExponent Format.binary64 b).toNat = b.toNat / 2 ^ 52 % 2 ^ 11 ∧
      (@unpackMantissa Format.binary64 b).toNat = b.toNat % 2 ^ 52 := by
  have := b.isLt
  refine ⟨?_, ?_, ?_⟩
  · simp [unpackSign, Nat.shiftRight_eq_div_pow]
    omega
  · simp [unpackExponent, Nat.shiftRight_eq_div_pow]
  · simp [unpackMantissa]

theorem unpack_full (h : Full m e) {b : UInt64} (hb : b.toNat = fullBits m e) :
    unpack Format.binary64 b.toBitVec = .finite .positive m e h.pos := by
  obtain ⟨hs, hx, hf⟩ := toNat_unpackedFields b.toBitVec
  obtain ⟨hs', hx', hf'⟩ := h.fields
  obtain ⟨hfull, hlt, hleast, hgreatest⟩ := h
  rw [UInt64.toNat_toBitVec, hb] at hs hx hf
  rw [hs'] at hs
  rw [hx'] at hx
  rw [hf'] at hf
  have hsign : @unpackSign Format.binary64 b.toBitVec = 0#1 := BitVec.eq_of_toNat_eq hs
  have hinf : @unpackExponent Format.binary64 b.toBitVec ≠ -1#_ := by
    intro h
    have h : _ = 2047 := congrArg BitVec.toNat h
    omega
  have hsub : @unpackExponent Format.binary64 b.toBitVec ≠ 0#_ := by
    intro h
    have h : _ = 0 := congrArg BitVec.toNat h
    omega
  have hmantissa : (1#1 ++ @unpackMantissa Format.binary64 b.toBitVec).toNat = m := by
    rw [BitVec.toNat_append, ← Nat.shiftLeft_add_eq_or_of_lt (BitVec.isLt _), hf,
      Nat.shiftLeft_eq]
    simp
    omega
  have hbias : ((Format.binary64.exponentBias : ℤ) + (52 : ℕ)) = 1075 := rfl
  have hexponent : ((e + 1075).toNat : ℤ) - 1075 = e := by omega
  simp only [unpack, if_neg hinf, if_neg hsub, hsign, hmantissa, hbias, hx, hexponent]
  rfl

theorem toNat_packDouble (s : Sign) (x : BitVec 11) (f : BitVec 52) :
    (packComponents Format.binary64 s x f).toNat =
      (s.toBitVec.toNat * 2 ^ 11 + x.toNat) * 2 ^ 52 + f.toNat := by
  simp only [packComponents, BitVec.toNat_append]
  rw [← Nat.shiftLeft_add_eq_or_of_lt f.isLt, ← Nat.shiftLeft_add_eq_or_of_lt x.isLt]
  simp only [Nat.shiftLeft_eq]

theorem toNat_pack_full (h : Full m e) :
    (pack Format.binary64 (.finite .positive m e h.pos)).toNat = fullBits m e := by
  have hpos := h.pos
  obtain ⟨hfull, hlt, hleast, hgreatest⟩ := h
  have hlog : m.log2 = 52 := (Nat.log2_eq_iff hpos.ne').mpr ⟨hfull, hlt⟩
  have hbias : e + (Format.binary64.exponentBias : ℤ) + (52 : ℕ) = e + 1075 := Int.add_assoc ..
  have hbits : Format.binary64.mantissaBits = 52 + 1 := rfl
  have hsign : (Sign.toBitVec .positive).toNat = 0 := rfl
  have hx : (e + 1075).toNat % 2 ^ 11 = (e + 1075).toNat := Nat.mod_eq_of_lt (by omega)
  have hf : m % 2 ^ 52 = m - 2 ^ 52 := by omega
  have hpack := toNat_packDouble .positive (BitVec.ofNat 11 (e + 1075).toNat) (BitVec.ofNat 52 m)
  rw [BitVec.toNat_ofNat, BitVec.toNat_ofNat, hsign, hx, hf, zero_mul, zero_add] at hpack
  simp only [pack, hbias, hbits, hlog]
  rw [if_neg (by omega), if_pos trivial]
  exact hpack

/-- A number without a sign that uses all digits. -/
structure IsFull (x : Float) (m : ℕ) (e : ℤ) : Prop extends Full m e where
  bits : x.toBits.toNat = fullBits m e

theorem isFull_pack (h : Full m e) :
    IsFull (.ofModel (.pack (.finite .positive m e h.pos))) m e :=
  ⟨h, toNat_pack_full h⟩

theorem isFull_ofBits (h : Full m e) {b : UInt64} (hb : b.toNat = fullBits m e) :
    IsFull (.ofBits b) m e := by
  have hx : Float.ofBits b = .ofModel (.pack (unpack Format.binary64 b.toBitVec)) := rfl
  rw [hx, unpack_full h hb]
  exact isFull_pack h

theorem IsFull.unpack (h : IsFull x m e) :
    x.toModel.unpack = .finite .positive m e h.toFull.pos :=
  unpack_full h.toFull h.bits

theorem IsFull.value (h : IsFull x m e) : Value.ofDouble x = .finite false m e := by
  obtain ⟨hfull, hbits⟩ := h
  obtain ⟨hs, hx, hf⟩ := toNat_fields x.toBits
  obtain ⟨hs', hx', hf'⟩ := hfull.fields
  obtain ⟨hfull, hlt, hleast, hgreatest⟩ := hfull
  rw [hbits] at hs hx hf
  rw [hs'] at hs
  rw [hx'] at hx
  rw [hf'] at hf
  have hsign : ¬x.toBits >>> 63 = 1 := by
    intro h
    rw [h] at hs
    cases hs
  have hinf : ¬(x.toBits >>> 52) &&& 0x7ff = 0x7ff := by
    intro h
    have h : _ = 2047 := congrArg UInt64.toNat h
    omega
  have hsub : ¬(x.toBits >>> 52) &&& 0x7ff = 0 := by
    intro h
    have h : _ = 0 := congrArg UInt64.toNat h
    omega
  have hadd : ((x.toBits &&& 0xfffffffffffff) + 0x10000000000000).toNat = m := by
    have hbit : (0x10000000000000 : UInt64).toNat = 2 ^ 52 := rfl
    rw [UInt64.toNat_add, hf, hbit]
    omega
  simp only [Value.ofDouble, beq_iff_eq, beq_eq_false_iff_ne.mpr hsign, if_neg hinf, if_neg hsub,
    hadd, hx]
  exact congrArg (Value.finite false m) (by omega)

theorem isFull_of_value (h : Value.ofDouble x = .finite false m e) (hfull : 2 ^ 52 ≤ m) :
    IsFull x m e := by
  obtain ⟨hs, hx, hf⟩ := toNat_fields x.toBits
  have hlt := x.toBits.toNat_lt
  have hadd : ((x.toBits &&& 0xfffffffffffff) + 0x10000000000000).toNat =
      x.toBits.toNat % 2 ^ 52 + 2 ^ 52 := by
    have hbit : (0x10000000000000 : UInt64).toNat = 2 ^ 52 := rfl
    rw [UInt64.toNat_add, hf, hbit]
    omega
  simp only [Value.ofDouble, beq_iff_eq] at h
  split_ifs at h with hinf hzero hsub
  · injection h with _ hm _
    omega
  · injection h with hsign hm he
    have hsign : x.toBits.toNat / 2 ^ 63 ≠ 1 := by
      intro h1
      have h1 : x.toBits >>> 63 = 1 := UInt64.toNat_inj.mp (hs.trans h1)
      rw [h1] at hsign
      cases hsign
    have hinf : _ ≠ 2047 := fun h => hinf (UInt64.toNat_inj.mp h)
    have hsub : _ ≠ 0 := fun h => hsub (UInt64.toNat_inj.mp h)
    refine ⟨⟨hfull, by omega, by omega, by omega⟩, ?_⟩
    unfold fullBits
    omega

end Bits

section Rounding

/-- A size far from overflow and underflow. -/
structure Ordinary (q : ℝ) : Prop where
  low : (2 : ℝ) ^ (-1000 : ℤ) ≤ q
  high : q ≤ 2 ^ (1000 : ℤ)

theorem Ordinary.pos (h : Ordinary q) : 0 < q := lt_of_lt_of_le (by positivity) h.low

theorem Ordinary.ne_zero (h : Ordinary (k * 2 ^ g)) : k ≠ 0 := by
  rintro rfl
  simpa using h.pos

theorem two_zpow_log2_le (hk : k ≠ 0) (g : ℤ) : (2 : ℝ) ^ (k.log2 + g) ≤ k * 2 ^ g := by
  have hlow : (2 : ℝ) ^ k.log2 ≤ k := by exact_mod_cast Nat.log2_self_le hk
  rw [zpow_add₀ two_ne_zero, zpow_natCast]
  gcongr

theorem lt_two_zpow_log2 (k : ℕ) (g : ℤ) : (k : ℝ) * 2 ^ g < 2 ^ (k.log2 + g + 1) := by
  have hhigh : (k : ℝ) < 2 ^ (k.log2 + 1) := by exact_mod_cast Nat.lt_log2_self
  have hsum : (k.log2 : ℤ) + g + 1 = (k.log2 + 1 : ℕ) + g := by push_cast; ring
  rw [hsum, zpow_add₀ two_ne_zero, zpow_natCast]
  gcongr

theorem Ordinary.place (h : Ordinary (k * 2 ^ g)) : -1001 < k.log2 + g ∧ k.log2 + g ≤ 1000 := by
  have hlow := h.low.trans_lt (lt_two_zpow_log2 k g)
  have hhigh := (two_zpow_log2_le h.ne_zero g).trans h.high
  rw [zpow_lt_zpow_iff_right₀ one_lt_two] at hlow
  rw [zpow_le_zpow_iff_right₀ one_lt_two] at hhigh
  omega

/-- What a number without a sign that uses all digits stands for. -/
inductive Stands (x : Float) (p : ℝ) : Prop
  | of (m : ℕ) (e : ℤ) : IsFull x m e → p = m * 2 ^ e → Stands x p

/-- The same up to one part in `2 ^ 53`. -/
inductive StandsNear (x : Float) (q : ℝ) : Prop
  | of (p : ℝ) : Stands x p → |p - q| ≤ q * 2 ^ (-53 : ℤ) → StandsNear x q

/-- A mantissa that is rounded up to a power of two is halved; counted in bits, that is nothing but
a carry. -/
theorem exists_full {n : ℕ} {t : ℤ} (hl : 2 ^ 52 ≤ n) (hu : n ≤ 2 ^ 53) (ht : -1074 ≤ t)
    (ht' : t ≤ 970) : ∃ m e, Full m e ∧ (m : ℝ) * 2 ^ e = n * 2 ^ t ∧
      fullBits m e = (t + 1074).toNat * 2 ^ 52 + n ∧
      shiftToTargetExponent Format.binary64 n t .exact = (⟨m, false, false⟩, e) := by
  have htarget : Format.binary64.targetExponent (totalExponent n t) =
      max (n.log2 + t - 52) (-1074) := by
    have hbits : (Format.binary64.mantissaBits : ℤ) = 53 := rfl
    have hleast : Format.binary64.minExponent = -1074 := rfl
    rw [Format.targetExponent, totalExponent, hbits, hleast]
    congr 1
    omega
  obtain hlt | rfl := hu.lt_or_eq
  · have hlog : n.log2 = 52 := (Nat.log2_eq_iff (by omega)).mpr ⟨hl, hlt⟩
    have hshift : (max (((52 : ℕ) : ℤ) + t - 52) (-1074) - t).toNat = 0 := by omega
    refine ⟨n, t, ⟨hl, hlt, ht, by omega⟩, rfl, ?_, ?_⟩
    · unfold fullBits
      omega
    · simp only [shiftToTargetExponent, htarget, shiftToExponent, hlog, hshift]
      exact congrArg _ (add_zero t)
  · have hlog : (2 ^ 53).log2 = 53 := Nat.log2_two_pow
    have hshift : (max (((53 : ℕ) : ℤ) + t - 52) (-1074) - t).toNat = 1 := by omega
    refine ⟨2 ^ 52, t + 1, ⟨le_rfl, by norm_num, by omega, by omega⟩, ?_, ?_, ?_⟩
    · rw [zpow_add_one₀ two_ne_zero]
      push_cast
      ring
    · unfold fullBits
      omega
    · simp only [shiftToTargetExponent, htarget, shiftToExponent, hlog, hshift]
      rfl

theorem near_of_nearestEven {n : ℕ} {t : ℤ} (hn : NearestEven n (q / 2 ^ t))
    (hq : (2 : ℝ) ^ (t + 52) ≤ q) : |(n : ℝ) * 2 ^ t - q| ≤ q * 2 ^ (-53 : ℤ) := by
  have hpos : (0 : ℝ) < 2 ^ t := by positivity
  have hscaled : (n : ℝ) * 2 ^ t - q = (n - q / 2 ^ t) * 2 ^ t := by field_simp
  have hunit : (1 / 2 : ℝ) * 2 ^ t = 2 ^ (t + 52) * 2 ^ (-53 : ℤ) := by
    rw [← zpow_add₀ two_ne_zero, add_assoc, zpow_add₀ two_ne_zero]
    norm_num
    ring
  calc |(n : ℝ) * 2 ^ t - q| = |(n : ℝ) - q / 2 ^ t| * 2 ^ t := by
        rw [hscaled, abs_mul, abs_of_pos hpos]
    _ ≤ 1 / 2 * 2 ^ t := by gcongr; exact hn.near
    _ = 2 ^ (t + 52) * 2 ^ (-53 : ℤ) := hunit
    _ ≤ q * 2 ^ (-53 : ℤ) := by gcongr

theorem bounds_of_nearestEven {n : ℕ} {t : ℤ} (hn : NearestEven n (q / 2 ^ t))
    (hlow : (2 : ℝ) ^ (t + 52) ≤ q) (hhigh : q < 2 ^ (t + 53)) : 2 ^ 52 ≤ n ∧ n ≤ 2 ^ 53 := by
  have hpos : (0 : ℝ) < 2 ^ t := by positivity
  obtain ⟨hleft, hright⟩ := abs_le.mp hn.near
  rw [two_zpow_add, ← le_div_iff₀ hpos] at hlow
  rw [two_zpow_add, ← div_lt_iff₀ hpos] at hhigh
  constructor
  · have h : (2 : ℝ) ^ (52 : ℤ) < n + 1 := by linarith
    exact Nat.lt_succ_iff.mp (by exact_mod_cast h)
  · have h : (n : ℝ) < 2 ^ (53 : ℤ) + 1 := by linarith
    exact Nat.lt_succ_iff.mp (by exact_mod_cast h)

/-- A size rounded to 53 digits, as bits count it and as arithmetic shifts it. -/
theorem exists_rounded {n : ℕ} {t : ℤ} (h : Ordinary (k * 2 ^ g)) (ht : t + 52 = k.log2 + g)
    (hn : NearestEven n (k * 2 ^ g / 2 ^ t)) :
    ∃ m e, Full m e ∧ |(m : ℝ) * 2 ^ e - k * 2 ^ g| ≤ k * 2 ^ g * 2 ^ (-53 : ℤ) ∧
      fullBits m e = (t + 1074).toNat * 2 ^ 52 + n ∧
      shiftToTargetExponent Format.binary64 n t .exact = (⟨m, false, false⟩, e) := by
  obtain ⟨hlow, hhigh⟩ := h.place
  have hlow' : (2 : ℝ) ^ (t + 52) ≤ k * 2 ^ g := ht ▸ two_zpow_log2_le h.ne_zero g
  have hhigh' : (k : ℝ) * 2 ^ g < 2 ^ (t + 53) := by
    have hnext : t + 53 = k.log2 + g + 1 := by omega
    exact hnext ▸ lt_two_zpow_log2 k g
  obtain ⟨hn', hn''⟩ := bounds_of_nearestEven hn hlow' hhigh'
  obtain ⟨m, e, hfull, hval, hbits, hshift⟩ := exists_full hn' hn'' (by omega) (by omega : t ≤ 970)
  exact ⟨m, e, hfull, hval ▸ near_of_nearestEven hn hlow', hbits, hshift⟩

theorem standsNear_toDouble (h : Ordinary (k * 2 ^ g)) :
    StandsNear (Value.toDouble (.finite false k g)) (k * 2 ^ g) := by
  obtain ⟨hlow, -⟩ := h.place
  obtain ⟨t, ht⟩ : ∃ t, t = k.log2 + g - 52 := ⟨_, rfl⟩
  have hunit : max (g + k.log2 - (double.fractionBits : ℤ)) double.least = t := by
    have hfraction : (double.fractionBits : ℤ) = 52 := rfl
    have hleast : double.least = -1074 := rfl
    rw [hfraction, hleast]
    omega
  obtain ⟨n, hn⟩ : ∃ n, n = roundShift k (t - g) := ⟨_, rfl⟩
  have hnearest : NearestEven n (k * 2 ^ g / 2 ^ t) := by
    have hscale : (k : ℝ) * 2 ^ g / 2 ^ t = k * 2 ^ (-(t - g)) := by
      rw [mul_div_assoc, ← zpow_sub₀ two_ne_zero, neg_sub]
    rw [hscale, hn]
    exact nearestEven_roundShift _ _
  obtain ⟨m, e, hfull, hnear, hbits, -⟩ := exists_rounded h (by omega) hnearest
  have hlt := hfull.lt
  have hgreatest := hfull.greatest
  have hcount : nearestBits double k g = fullBits m e := by
    have hinfinity : double.infinityBits = 2047 * 2 ^ 52 := rfl
    have hhidden : double.hiddenBit = 2 ^ 52 := rfl
    have hleast : double.least = -1074 := rfl
    have hsteps : (t - -1074).toNat = (t + 1074).toNat := by omega
    rw [nearestBits, if_neg h.ne_zero]
    dsimp only
    rw [hunit, ← hn, hinfinity, hhidden, hleast, hsteps, ← hbits, min_eq_left]
    unfold fullBits
    omega
  have hx : Value.toDouble (.finite false k g) = .ofBits (.ofNat (nearestBits double k g)) := rfl
  refine ⟨m * 2 ^ e, ⟨m, e, ?_, rfl⟩, hnear⟩
  rw [hx, hcount]
  have hword : fullBits m e < 2 ^ 64 := by
    unfold fullBits
    omega
  exact isFull_ofBits hfull (UInt64.toNat_ofNat_of_lt' hword)

theorem standsNear_mul (hx : Stands x p) (hy : Stands y q) (h : Ordinary (p * q)) :
    StandsNear (x * y) (p * q) := by
  obtain ⟨m, e, hm, rfl⟩ := hx
  obtain ⟨n, f, hn, rfl⟩ := hy
  obtain ⟨k, hk⟩ : ∃ k, k = m * n := ⟨_, rfl⟩
  obtain ⟨g, hg⟩ : ∃ g, g = e + f := ⟨_, rfl⟩
  have hval : (m : ℝ) * 2 ^ e * (n * 2 ^ f) = k * 2 ^ g := by
    rw [hk, hg, zpow_add₀ two_ne_zero]
    push_cast
    ring
  have hproduct : x * y =
      .ofModel (.pack (roundWithAccuracy Format.binary64 .positive k g .exact)) := by
    have : x * y = .ofModel (.pack (mul Format.binary64 x.toModel.unpack y.toModel.unpack)) := rfl
    rw [this, hm.unpack, hn.unpack, hk, hg]
    rfl
  rw [hval] at h ⊢
  have hlog : 52 ≤ k.log2 := by
    rw [Nat.le_log2 h.ne_zero, hk]
    exact hm.full.trans (Nat.le_mul_of_pos_right m hn.pos)
  obtain ⟨hlow, -⟩ := h.place
  obtain ⟨c, hc⟩ : ∃ c : ℕ, k.log2 = 52 + c := Nat.exists_eq_add_of_le hlog
  obtain ⟨em, hem⟩ : ∃ em, em = ExtendedMantissa.ofMantissaAndAccuracy k .exact >>> c := ⟨_, rfl⟩
  have hexact : Approximates k (k : ℝ) .exact := rfl
  have hnearest : NearestEven em.roundedMantissa (k * 2 ^ g / 2 ^ (g + c)) := by
    have hscale : (k : ℝ) * 2 ^ g / 2 ^ (g + c) = k / 2 ^ c := by
      rw [zpow_add₀ two_ne_zero, zpow_natCast]
      field_simp
    rw [hscale, hem]
    exact ((holds_ofMantissaAndAccuracy hexact).shiftRight c).nearestEven
  obtain ⟨m, e, hfull, hnear, -, hshift⟩ := exists_rounded h (by omega) hnearest
  have hfirst : shiftToTargetExponent Format.binary64 k g .exact = (em, g + c) := by
    have htarget : (Format.binary64.targetExponent (totalExponent k g) - g).toNat = c := by
      have hbits : (Format.binary64.mantissaBits : ℤ) = 53 := rfl
      have hleast : Format.binary64.minExponent = -1074 := rfl
      rw [Format.targetExponent, totalExponent, hbits, hleast]
      omega
    rw [shiftToTargetExponent, shiftToExponent, htarget, hem]
  have hround : roundWithAccuracy Format.binary64 .positive k g .exact =
      .finite .positive m e hfull.pos := by
    simp only [roundWithAccuracy, hfirst, hshift, dif_neg hfull.pos.ne']
  refine ⟨m * 2 ^ e, ⟨m, e, ?_, rfl⟩, hnear⟩
  rw [hproduct, hround]
  exact isFull_pack hfull

end Rounding

end VisibleDifference.Binary
