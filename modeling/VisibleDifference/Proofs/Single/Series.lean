import VisibleDifference.Binary.Elementary
import VisibleDifference.Proofs.Single.Operations

/-!
# Series in fixed point

Each term of a series grows with the argument, and so does the sum. Between two powers of two that is
all there is to it; across a power of two the clamp of the series puts the results in order. So
logarithms, powers of two and quotients keep the order before they are rounded.
-/

namespace VisibleDifference

namespace FixedPoint

variable {m n p q r s : ℕ}

theorem shiftRight_mono (h : m ≤ n) (k : ℕ) : m >>> k ≤ n >>> k := by
  rw [Nat.shiftRight_eq_div_pow, Nat.shiftRight_eq_div_pow]
  exact Nat.div_le_div_right h

theorem artanhTail_mono (hr : r ≤ s) (n k : ℕ) (hp : p ≤ q) :
    artanhTail r n k p ≤ artanhTail s n k q := by
  induction n generalizing k p q with
  | zero => exact le_rfl
  | succ n ih =>
    rw [artanhTail, artanhTail]
    by_cases hzero : p = 0
    · rw [if_pos hzero]
      exact Nat.zero_le _
    · rw [if_neg hzero, if_neg (by omega)]
      have hterm : p / k ≤ q / k := Nat.div_le_div_right hp
      have hnext : (p * r) >>> bits ≤ (q * s) >>> bits :=
        shiftRight_mono (Nat.mul_le_mul hp hr) bits
      exact Nat.add_le_add hterm (ih (k + 2) hnext)

theorem artanh_mono (h : m ≤ n) : artanh m ≤ artanh n :=
  artanhTail_mono (shiftRight_mono (Nat.mul_le_mul h h) bits) 32 1 h

theorem expTail_mono (hr : r ≤ s) (n k : ℕ) (hp : p ≤ q) :
    expTail r n k p ≤ expTail s n k q := by
  induction n generalizing k p q with
  | zero => exact le_rfl
  | succ n ih =>
    rw [expTail, expTail]
    by_cases hzero : p = 0
    · rw [if_pos hzero]
      exact Nat.zero_le _
    · rw [if_neg hzero, if_neg (by omega)]
      have hnext : (p * r) >>> bits / k ≤ (q * s) >>> bits / k :=
        Nat.div_le_div_right (shiftRight_mono (Nat.mul_le_mul hp hr) bits)
      exact Nat.add_le_add hp (ih (k + 1) hnext)

theorem exp2_mono (h : m ≤ n) : exp2 m ≤ exp2 n := by
  have hr := shiftRight_mono (Nat.mul_le_mul_right (2 * halfLogTwo) h) bits
  exact max_le_max le_rfl (min_le_min le_rfl (expTail_mono hr 28 1 le_rfl))

theorem div_le_div_of_cross {a b c d : ℕ} (hb : 0 < b) (hd : 0 < d) (h : a * d ≤ c * b) :
    a / b ≤ c / d := by
  rw [Nat.le_div_iff_mul_le hd]
  refine Nat.le_of_mul_le_mul_right ?_ hb
  calc a / b * d * b = a / b * b * d := by ring
    _ ≤ a * d := Nat.mul_le_mul_right d (Nat.div_mul_le_self a b)
    _ ≤ c * b := h

theorem shiftLeft_mono (h : m ≤ n) (k : ℕ) : m <<< k ≤ n <<< k := by
  rw [Nat.shiftLeft_eq, Nat.shiftLeft_eq]
  exact Nat.mul_le_mul_right _ h

/-- Mantissas compare as numbers from one to two. -/
theorem logFraction_mono (hm : m ≠ 0) (hn : n ≠ 0) (h : m * 2 ^ n.log2 ≤ n * 2 ^ m.log2) :
    logFraction m ≤ logFraction n := by
  obtain ⟨p, hp⟩ : ∃ p, p = 1 <<< m.log2 := ⟨_, rfl⟩
  obtain ⟨q, hq⟩ : ∃ q, q = 1 <<< n.log2 := ⟨_, rfl⟩
  have hratio : ((m - p) <<< bits) / (m + p) ≤ ((n - q) <<< bits) / (n + q) := by
    rw [← Nat.one_shiftLeft, ← Nat.one_shiftLeft, ← hp, ← hq] at h
    have hpm : p ≤ m := by rw [hp, Nat.one_shiftLeft]; exact Nat.log2_self_le hm
    have hqn : q ≤ n := by rw [hq, Nat.one_shiftLeft]; exact Nat.log2_self_le hn
    obtain ⟨a, rfl⟩ := Nat.exists_eq_add_of_le hpm
    obtain ⟨b, rfl⟩ := Nat.exists_eq_add_of_le hqn
    have hcross : a * q ≤ b * p := by linarith [add_mul p a q, add_mul q b p]
    rw [Nat.add_sub_cancel_left, Nat.add_sub_cancel_left, Nat.shiftLeft_eq, Nat.shiftLeft_eq]
    refine div_le_div_of_cross (by omega) (by omega) ?_
    calc a * 2 ^ bits * (q + b + q) = (2 * (a * q) + a * b) * 2 ^ bits := by ring
      _ ≤ (2 * (b * p) + a * b) * 2 ^ bits := by gcongr
      _ = b * 2 ^ bits * (p + a + p) := by ring
  have hseries := shiftLeft_mono (artanh_mono hratio) bits
  rw [logFraction, logFraction, ← hp, ← hq]
  exact min_le_min le_rfl (Nat.div_le_div_right hseries)

end FixedPoint

namespace Binary.Value

variable {m n : ℕ} {e f i j : ℤ}

theorem one_eq : ((FixedPoint.one : ℕ) : ℤ) = 2 ^ 96 := rfl

section Logarithm

theorem logOf_eq (m : ℕ) (e : ℤ) :
    logOf m e = (m.log2 + e) * 2 ^ 96 + FixedPoint.logFraction m := by
  rw [logOf, FixedPoint.log2, one_eq, Nat.shiftLeft_eq]
  push_cast
  ring

theorem logOf_one (e : ℤ) : logOf 1 e = e * 2 ^ 96 := by
  have hfraction : FixedPoint.logFraction 1 = 0 := by decide +kernel
  have hplace : Nat.log2 1 = 0 := by decide +kernel
  rw [logOf_eq, hfraction, hplace]
  simp

theorem logOf_mono (hm : m ≠ 0) (hn : n ≠ 0) (h : (m : ℝ) * 2 ^ e ≤ n * 2 ^ f) :
    logOf m e ≤ logOf n f := by
  have hlow : (2 : ℝ) ^ ((m.log2 : ℕ) : ℤ) ≤ m := by exact_mod_cast Nat.log2_self_le hm
  have hhigh : (n : ℝ) < 2 ^ ((n.log2 + 1 : ℕ) : ℤ) := by exact_mod_cast Nat.lt_log2_self
  have hplace : (m.log2 : ℤ) + e < (n.log2 + 1 : ℕ) + f := by
    rw [← zpow_lt_zpow_iff_right₀ (one_lt_two (α := ℝ)), zpow_add₀ two_ne_zero,
      zpow_add₀ two_ne_zero]
    calc (2 : ℝ) ^ ((m.log2 : ℕ) : ℤ) * 2 ^ e ≤ m * 2 ^ e := by gcongr
      _ ≤ n * 2 ^ f := h
      _ < 2 ^ ((n.log2 + 1 : ℕ) : ℤ) * 2 ^ f := by gcongr
  have hm' : FixedPoint.logFraction m ≤ 2 ^ 96 := FixedPoint.logFraction_le_one m
  rw [logOf_eq, logOf_eq]
  by_cases heq : (m.log2 : ℤ) + e = n.log2 + f
  · have hscaled : (m : ℝ) * 2 ^ n.log2 ≤ n * 2 ^ m.log2 := by
      have hf : f = m.log2 + e - n.log2 := by omega
      rw [hf, zpow_sub₀ two_ne_zero, zpow_add₀ two_ne_zero, zpow_natCast, zpow_natCast,
        ← mul_div_assoc, le_div_iff₀ (by positivity)] at h
      refine le_of_mul_le_mul_right ?_ (zpow_pos (two_pos (α := ℝ)) e)
      linarith
    have hfraction := FixedPoint.logFraction_mono hm hn (by exact_mod_cast hscaled)
    rw [heq]
    omega
  · omega

end Logarithm

section PowerOfTwo

/-- The mantissa of a power of two, by the fraction of the exponent. -/
def powerMantissa (fraction : ℕ) : ℕ := (FixedPoint.exp2 fraction + 2 ^ 23) / 2 ^ 24

theorem le_powerMantissa (f : ℕ) : 2 ^ 72 ≤ powerMantissa f := by
  have hlow : 2 ^ 96 ≤ FixedPoint.exp2 f := FixedPoint.one_le_exp2 f
  unfold powerMantissa
  omega

theorem powerMantissa_le (f : ℕ) : powerMantissa f ≤ 2 ^ 73 := by
  have hhigh : FixedPoint.exp2 f ≤ 2 * 2 ^ 96 := FixedPoint.exp2_le_two f
  unfold powerMantissa
  omega

theorem powerMantissa_zero : powerMantissa 0 = 2 ^ 72 := by decide +kernel

/-- The exponent is clamped and split into its integer part and its fraction. -/
theorem powerOfTwo_eq (s : Bool) (t : ℤ) :
    powerOfTwo s t =
      .finite s (powerMantissa ((max (-200 * 2 ^ 96) (min (200 * 2 ^ 96) t)) % 2 ^ 96).toNat)
        ((max (-200 * 2 ^ 96) (min (200 * 2 ^ 96) t)) / 2 ^ 96 - 72) := by
  have hlimit : exponentLimit = 200 * 2 ^ 96 := rfl
  have hlimit' : -(200 * 2 ^ 96 : ℤ) = -200 * 2 ^ 96 := rfl
  rw [powerOfTwo, hlimit, hlimit', one_eq, Nat.shiftRight_eq_div_pow]
  rfl

/-- What a finite value stands for without its sign. -/
noncomputable def size (v : Value) : ℝ :=
  match v.reading with
  | .number _ q => q
  | _ => 0

theorem size_finite (s : Bool) (m : ℕ) (e : ℤ) : (finite s m e).size = m * 2 ^ e := rfl

theorem size_nonneg (v : Value) : 0 ≤ v.size := by
  cases v with
  | finite s m e =>
    rw [size_finite]
    positivity
  | nan | infinite => exact le_rfl

theorem size_powerOfTwo_mono (h : i ≤ j) (s : Bool) :
    (powerOfTwo s i).size ≤ (powerOfTwo s j).size := by
  obtain ⟨u, hu⟩ : ∃ u, u = max (-200 * 2 ^ 96) (min (200 * 2 ^ 96) i) := ⟨_, rfl⟩
  obtain ⟨v, hv⟩ : ∃ v, v = max (-200 * 2 ^ 96) (min (200 * 2 ^ 96) j) := ⟨_, rfl⟩
  have huv : u ≤ v := by omega
  rw [powerOfTwo_eq, powerOfTwo_eq, ← hu, ← hv]
  obtain heq | hlt : u / 2 ^ 96 = v / 2 ^ 96 ∨ u / 2 ^ 96 < v / 2 ^ 96 := by omega
  · have hle : powerMantissa (u % 2 ^ 96).toNat ≤ powerMantissa (v % 2 ^ 96).toNat :=
      Nat.div_le_div_right (Nat.add_le_add_right (FixedPoint.exp2_mono (by omega)) _)
    rw [size_finite, size_finite, heq]
    gcongr
  · have hm : ((powerMantissa (u % 2 ^ 96).toNat : ℕ) : ℝ) ≤ 2 ^ (73 : ℤ) := by
      exact_mod_cast powerMantissa_le _
    have hn : (2 : ℝ) ^ (72 : ℤ) ≤ (powerMantissa (v % 2 ^ 96).toNat : ℕ) := by
      exact_mod_cast le_powerMantissa _
    rw [size_finite, size_finite]
    calc _ ≤ (2 : ℝ) ^ (73 : ℤ) * 2 ^ (u / 2 ^ 96 - 72) := by gcongr
      _ = 2 ^ (73 + (u / 2 ^ 96 - 72)) := (zpow_add₀ two_ne_zero _ _).symm
      _ ≤ 2 ^ (72 + (v / 2 ^ 96 - 72)) := zpow_le_zpow_right₀ one_le_two (by omega)
      _ = 2 ^ (72 : ℤ) * 2 ^ (v / 2 ^ 96 - 72) := zpow_add₀ two_ne_zero _ _
      _ ≤ _ := by gcongr

theorem size_powerOfTwo {k : ℤ} (hl : -200 ≤ k) (hu : k ≤ 200) (s : Bool) :
    (powerOfTwo s (k * 2 ^ 96)).size = 2 ^ k := by
  have hclamp : max (-200 * 2 ^ 96) (min (200 * 2 ^ 96) (k * 2 ^ 96)) = k * 2 ^ 96 := by omega
  have hfraction : k * 2 ^ 96 % 2 ^ 96 = 0 := Int.mul_emod_left ..
  have hplace : k * 2 ^ 96 / 2 ^ 96 = k := Int.mul_ediv_cancel k (by norm_num)
  rw [powerOfTwo_eq, hclamp, hfraction, hplace, Int.toNat_zero, powerMantissa_zero, size_finite,
    Nat.cast_pow, Nat.cast_ofNat, ← zpow_natCast, ← zpow_add₀ two_ne_zero]
  congr 1
  omega

end PowerOfTwo

section Rounded

theorem shifted_ofNat (n : ℤ) (k : ℕ) : shifted n k = n * 2 ^ k := by
  rw [shifted, if_pos (by omega), Int.toNat_natCast, Nat.shiftLeft_eq, one_mul]
  push_cast
  rfl

theorem shifted_negSucc (n : ℤ) (k : ℕ) : shifted n (.negSucc k) = n / 2 ^ (k + 1) := by
  rw [shifted, if_neg (by omega), Int.neg_negSucc, Int.toNat_natCast, Int.shiftRight_eq_div_pow]
  push_cast
  rfl

theorem shifted_eq_floor (n e : ℤ) : shifted n e = ⌊(n : ℝ) * 2 ^ e⌋ := by
  cases e with
  | ofNat k =>
    rw [Int.ofNat_eq_natCast, shifted_ofNat, zpow_natCast]
    exact_mod_cast (Int.floor_intCast (n * 2 ^ k)).symm
  | negSucc k =>
    rw [shifted_negSucc, zpow_negSucc, ← div_eq_mul_inv]
    have hfloor := Int.floor_div_natCast (n : ℝ) (2 ^ (k + 1))
    rw [Int.floor_intCast] at hfloor
    exact_mod_cast hfloor.symm

theorem shifted_mono (h : (i : ℝ) * 2 ^ e ≤ j * 2 ^ f) : shifted i e ≤ shifted j f := by
  rw [shifted_eq_floor, shifted_eq_floor]
  exact Int.floor_le_floor h

theorem shifted_le {b : ℤ} (h : (i : ℝ) * 2 ^ e ≤ b) : shifted i e ≤ b := by
  rw [shifted_eq_floor]
  exact (Int.floor_le_floor h).trans_eq (Int.floor_intCast b)

theorem shifted_nonneg (h : 0 ≤ i) (e : ℤ) : 0 ≤ shifted i e := by
  rw [shifted_eq_floor, Int.floor_nonneg]
  positivity

/-- The mantissa of a quotient; one more bit tells an inexact quotient from the exact one below. -/
def quotientMantissa (num den : ℕ) : ℕ :=
  2 * (num <<< (64 + den.log2) / den) + (if num <<< (64 + den.log2) % den = 0 then 0 else 1)

theorem quotientMantissa_mono {d : ℕ} (h : m ≤ n) :
    quotientMantissa m d ≤ quotientMantissa n d := by
  unfold quotientMantissa
  obtain ⟨i, hi⟩ : ∃ i, i = m <<< (64 + d.log2) := ⟨_, rfl⟩
  obtain ⟨j, hj⟩ : ∃ j, j = n <<< (64 + d.log2) := ⟨_, rfl⟩
  have hij : i ≤ j := by
    rw [hi, hj]
    exact FixedPoint.shiftLeft_mono h _
  rw [← hi, ← hj]
  obtain hlt | heq := (Nat.div_le_div_right (c := d) hij).lt_or_eq
  · split_ifs <;> omega
  · have hi' := Nat.div_add_mod i d
    have hj' := Nat.div_add_mod j d
    rw [heq] at hi'
    split_ifs <;> omega

theorem size_ratio (s : Bool) (n d : ℕ) (e : ℤ) :
    (ratio s n d e).size = quotientMantissa n d * 2 ^ (e - ((64 + d.log2 : ℕ) : ℤ) - 1) := rfl

theorem size_ratio_mono {d : ℕ} (h : m ≤ n) (s t : Bool) :
    (ratio s m d e).size ≤ (ratio t n d e).size := by
  have hle : (quotientMantissa m d : ℝ) ≤ quotientMantissa n d := by
    exact_mod_cast quotientMantissa_mono h
  rw [size_ratio, size_ratio]
  gcongr

theorem signed_ratio_mono (h : i ≤ j) (d : ℕ) :
    signed (decide (i < 0)) (ratio (decide (i < 0)) i.natAbs d e).size ≤
      signed (decide (j < 0)) (ratio (decide (j < 0)) j.natAbs d e).size := by
  by_cases hj : j < 0
  · have hi : i < 0 := h.trans_lt hj
    rw [decide_eq_true hi, decide_eq_true hj, signed_true, signed_true, neg_le_neg_iff]
    exact size_ratio_mono (by omega) _ _
  · rw [decide_eq_false hj, signed_false]
    by_cases hi : i < 0
    · rw [decide_eq_true hi, signed_true]
      exact (neg_nonpos.mpr (size_nonneg _)).trans (size_nonneg _)
    · rw [decide_eq_false hi, signed_false]
      exact size_ratio_mono (by omega) _ _

end Rounded

end Binary.Value

end VisibleDifference
