import VisibleDifference.Proofs.Single.Rounding
import VisibleDifference.Proofs.Single.Signs

/-!
# Operations on readings

Each operation on two numbers rounds the exact result, with the sign that the exact result has; the
sign of a zero comes from the signs of the operands. Infinities and NaN go by the rules of IEEE 754.
-/

namespace VisibleDifference.Binary

open Float.Model (Format UnpackedFloat totalExponent)
open Float.Model.UnpackedFloat

variable {x y z : Float32} {s t u : Bool} {p q r : ℝ}

/-- The number of a sign and a size. -/
def signed (negative : Bool) (size : ℝ) : ℝ := if negative then -size else size

@[simp] theorem signed_false (q : ℝ) : signed false q = q := rfl

@[simp] theorem signed_true (q : ℝ) : signed true q = -q := rfl

theorem abs_signed (s : Bool) (hq : 0 ≤ q) : |signed s q| = q := by
  cases s <;> simp [abs_of_nonneg hq]

theorem form_of_number (h : reading x = .number s q) :
    x.toModel.unpack = .zero (signOf s) ∧ q = 0 ∨
      ∃ m e hm, x.toModel.unpack = .finite (signOf s) m e hm ∧ Canonical m e ∧ q = m * 2 ^ e := by
  have hc := isCanonical_unpack_toModel x
  rw [reading_eq] at h
  cases hu : x.toModel.unpack with
  | notANumber | infinity => rw [hu] at h; cases h
  | zero t =>
    rw [hu] at h
    cases h
    exact .inl ⟨by rw [signOf_negative_eq], by simp⟩
  | finite t m e hm =>
    rw [hu] at h hc
    cases h
    exact .inr ⟨m, e, hm, by rw [signOf_negative_eq], hc, rfl⟩

theorem form_of_infinite (h : reading x = .infinite s) :
    x.toModel.unpack = .infinity (signOf s) := by
  rw [reading_eq] at h
  cases hu : x.toModel.unpack with
  | notANumber | zero | finite => rw [hu] at h; cases h
  | infinity t =>
    rw [hu] at h
    cases h
    rw [signOf_negative_eq]

theorem form_of_nan (h : reading x = .nan) : x.toModel.unpack = .notANumber := by
  rw [reading_eq] at h
  cases hu : x.toModel.unpack with
  | notANumber => rfl
  | infinity | zero | finite => rw [hu] at h; cases h

/-- A number is nearest to its own size. -/
theorem nearest_self (h : reading x = .number s q) : Nearest x s q := by
  obtain ⟨-, rfl⟩ | ⟨m, e, hm, hu, hc, rfl⟩ := form_of_number h
  · exact nearest_of_zero h
  · have hpos : (0 : ℝ) < 2 ^ e := by positivity
    have hstep : Step e (m * 2 ^ e) := by
      refine ⟨hc.least, hc.full.symm.imp_right fun hfull => ?_, ?_⟩
      · have hfull : (2 : ℝ) ^ (23 : ℤ) ≤ m := by exact_mod_cast hfull
        rw [two_zpow_add]
        gcongr
      · have hlt : (m : ℝ) < 2 ^ (24 : ℤ) := by exact_mod_cast hc.lt
        rw [two_zpow_add]
        gcongr
    refine ⟨e, m, hstep, ?_, ?_⟩
    · rw [mul_div_cancel_right₀ _ hpos.ne']
      exact .natCast m
    · rw [h, if_pos (grid_of_reading h).lt_overflow]

/-- The sign of a sum; a sum of zero is negative only if both terms are. -/
noncomputable def sumSign (s t : Bool) (v : ℝ) : Bool := if v = 0 then s && t else decide (v < 0)

theorem sumSign_comm (s t : Bool) (v : ℝ) : sumSign s t v = sumSign t s v := by
  rw [sumSign, sumSign, Bool.and_comm]

theorem sumSign_signed (s t u : Bool) (hq : 0 < q) : sumSign s t (signed u q) = u := by
  cases u with
  | false => rw [sumSign, signed_false, if_neg hq.ne', decide_eq_false (not_lt.mpr hq.le)]
  | true =>
    rw [sumSign, signed_true, if_neg (neg_ne_zero.mpr hq.ne'), decide_eq_true (neg_lt_zero.mpr hq)]

theorem sumSign_of_ne (s t : Bool) {k : ℤ} (hk : k ≠ 0) (g : ℤ) :
    sumSign s t (k * 2 ^ g) = decide (k < 0) := by
  have hpos : (0 : ℝ) < 2 ^ g := by positivity
  rw [sumSign, if_neg (mul_ne_zero (by exact_mod_cast hk) hpos.ne'), decide_eq_decide, mul_neg_iff]
  simp [hpos, hpos.le, not_lt]

theorem decreaseExponent_eq {e g : ℤ} (hg : g ≤ e) (m : ℕ) :
    ((decreaseExponent m e g).1 : ℝ) * 2 ^ g = m * 2 ^ e := by
  obtain ⟨k, rfl⟩ := Int.le.dest hg
  have hk : (g + k - g).toNat = k := by omega
  rw [decreaseExponent, hk, Nat.shiftLeft_eq, zpow_add₀ two_ne_zero, zpow_natCast]
  push_cast
  ring

theorem apply_signOf (s : Bool) (n : ℕ) : (((signOf s).apply n : ℤ) : ℝ) = signed s n := by
  cases s <;> simp [signOf, Sign.apply]

theorem signed_mul (s : Bool) (p q : ℝ) : signed s (p * q) = signed s p * q := by
  cases s <;> simp

theorem nearest_add_of_zero (hx : x.toModel.unpack = .zero (signOf s))
    (hy : reading y = .number t q) :
    Nearest (x + y) (sumSign s t (signed s 0 + signed t q)) |signed s 0 + signed t q| := by
  have hzero : signed s 0 = 0 := by cases s <;> simp
  have hadd : x + y =
      .ofModel (.pack (add Format.binary32 (.zero (signOf s)) y.toModel.unpack)) := by
    rw [← hx]
    rfl
  rw [hzero, zero_add, abs_signed t (size_nonneg hy)]
  obtain ⟨hu, rfl⟩ | ⟨m, e, hm, hu, -, hq⟩ := form_of_number hy
  · have hsum : add Format.binary32 (.zero (signOf s)) (.zero (signOf t)) =
        .zero (signOf (s && t)) := by
      cases s <;> cases t <;> rfl
    have hsign : sumSign s t (signed t 0) = (s && t) := by cases t <;> simp [sumSign]
    rw [hu, hsum] at hadd
    apply nearest_self
    rw [hadd, reading_pack_zero, signOf_eq_negative, hsign]
  · have hpos : 0 < q := by rw [hq]; positivity
    have hxy : x + y = y := by
      have hc := isCanonical_unpack_toModel y
      apply eq_of_unpack_eq
      rw [hu] at hadd hc
      rw [hadd, hu]
      exact unpack_toModel_pack hc
    rw [sumSign_signed _ _ _ hpos, hxy]
    exact nearest_self hy

theorem nearest_add (hx : reading x = .number s p) (hy : reading y = .number t q) :
    Nearest (x + y) (sumSign s t (signed s p + signed t q)) |signed s p + signed t q| := by
  obtain ⟨hu, rfl⟩ | ⟨m, e, hm, hu, -, hp⟩ := form_of_number hx
  · exact nearest_add_of_zero hu hy
  obtain ⟨hv, rfl⟩ | ⟨n, f, hn, hv, -, hq⟩ := form_of_number hy
  · rw [Binary.add_comm, sumSign_comm, add_comm (signed s p)]
    exact nearest_add_of_zero hv hx
  set g := min e f
  set k : ℤ :=
    (signOf s).apply (decreaseExponent m e g).1 + (signOf t).apply (decreaseExponent n f g).1
  have hval : (k : ℝ) * 2 ^ g = signed s p + signed t q := by
    rw [Int.cast_add, apply_signOf, apply_signOf, add_mul, ← signed_mul, ← signed_mul,
      decreaseExponent_eq (min_le_left e f), decreaseExponent_eq (min_le_right e f), ← hp, ← hq]
  have hadd : x + y = .ofModel (.pack (UnpackedFloat.normalize Format.binary32 k g .positive)) := by
    have : x + y = .ofModel (.pack (add Format.binary32 x.toModel.unpack y.toModel.unpack)) := rfl
    rw [this, hu, hv]
    rfl
  have hpos : (0 : ℝ) < 2 ^ g := by positivity
  rw [← hval, abs_mul, abs_of_pos hpos, hadd]
  by_cases hk : k = 0
  · have hsign : sumSign s t (k * 2 ^ g) = false := by
      have hp' : 0 < p := by rw [hp]; positivity
      have hq' : 0 < q := by rw [hq]; positivity
      rw [hk, Int.cast_zero, zero_mul] at hval ⊢
      rw [sumSign, if_pos rfl, Bool.eq_false_iff, ne_eq, Bool.and_eq_true]
      rintro ⟨rfl, rfl⟩
      simp only [signed_true] at hval
      linarith
    rw [hsign, hk, Int.cast_zero, abs_zero, zero_mul]
    exact nearest_of_zero (reading_pack_zero .positive)
  · rw [sumSign_of_ne s t hk]
    exact nearest_normalize hk g .positive

theorem rounds_add (hx : reading x = .number s p) (hy : reading y = .number t q) :
    Rounds (x + y) (sumSign s t (signed s p + signed t q)) |signed s p + signed t q| :=
  (nearest_add hx hy).rounds

theorem unpack_neg (x : Float32) : (-x).toModel.unpack = x.toModel.unpack.neg := by
  have hc := isCanonical_unpack_toModel x
  have hneg : IsCanonical x.toModel.unpack.neg := by
    cases hu : x.toModel.unpack with
    | notANumber | infinity | zero => trivial
    | finite => rw [hu] at hc; exact hc
  exact unpack_toModel_pack hneg

theorem sub_eq_add_neg (x y : Float32) : x - y = x + -y := by
  have hform (f g : UnpackedFloat) : sub Format.binary32 f g = add Format.binary32 f g.neg := by
    cases f with
    | notANumber => cases g <;> rfl
    | infinity s =>
      cases g with
      | infinity t => cases s <;> cases t <;> rfl
      | notANumber | zero | finite => rfl
    | zero s =>
      cases g with
      | zero t => cases s <;> cases t <;> rfl
      | notANumber | infinity | finite => rfl
    | finite s m e hm =>
      cases g with
      | finite t n f hn =>
        have happly (k : ℤ) : (-t).apply k = -t.apply k := by
          cases t with
          | negative => exact (neg_neg k).symm
          | positive => rfl
        simp only [sub, UnpackedFloat.neg, add, happly, Int.sub_eq_add_neg]
      | notANumber | infinity | zero => rfl
  have hsub : x - y =
      .ofModel (.pack (sub Format.binary32 x.toModel.unpack y.toModel.unpack)) := rfl
  have hadd : x + -y =
      .ofModel (.pack (add Format.binary32 x.toModel.unpack (-y).toModel.unpack)) := rfl
  rw [hsub, hadd, unpack_neg, hform]

def Reading.neg : Reading → Reading
  | .nan => .nan
  | .infinite s => .infinite (!s)
  | .number s q => .number (!s) q

def Reading.abs : Reading → Reading
  | .nan => .nan
  | .infinite _ => .infinite false
  | .number _ q => .number false q

theorem reading_neg (x : Float32) : reading (-x) = (reading x).neg := by
  rw [reading_eq, reading_eq, unpack_neg]
  cases x.toModel.unpack with
  | notANumber => rfl
  | infinity s | zero s | finite s => cases s <;> rfl

theorem reading_abs (x : Float32) : reading x.abs = (reading x).abs := by
  rw [reading_eq, reading_eq, unpack_abs]
  cases x.toModel.unpack with
  | notANumber => rfl
  | infinity s | zero s | finite s => cases s <;> rfl

theorem signOf_mul (s t : Bool) : signOf s * signOf t = signOf (s != t) := by
  cases s <;> cases t <;> rfl

theorem signOf_div (s t : Bool) : signOf s / signOf t = signOf (s != t) := by
  cases s <;> cases t <;> rfl

/-- A mantissa of at least 24 digits, or the least exponent, leaves all digits to be kept. -/
theorem le_targetExponent {m : ℕ} {g : ℤ} (h : 2 ^ 23 ≤ m ∨ g ≤ -149) :
    g ≤ Format.binary32.targetExponent (totalExponent m g) := by
  rw [targetExponent_eq]
  obtain h | h := h
  · have hlog : 23 ≤ m.log2 := (Nat.le_log2 (by omega)).mpr h
    omega
  · exact h.trans (le_max_right _ _)

theorem two_pow_le_shiftLeft {m k c : ℕ} (hm : 0 < m) (h : c ≤ m.log2 + k) : 2 ^ c ≤ m <<< k := by
  rw [← log2_shiftLeft hm.ne'] at h
  have hpos : m <<< k ≠ 0 := by simpa [Nat.shiftLeft_eq] using hm.ne'
  exact (Nat.le_log2 hpos).mp h

theorem full_quotient {m n k : ℕ} (hm : 0 < m) (hn : 0 < n) (h : n.log2 + 24 ≤ m.log2 + k) :
    2 ^ 23 ≤ (m <<< k) / n := by
  rw [Nat.le_div_iff_mul_le hn]
  calc 2 ^ 23 * n ≤ 2 ^ 23 * 2 ^ (n.log2 + 1) := by gcongr; exact Nat.lt_log2_self.le
    _ = 2 ^ (n.log2 + 24) := by rw [← pow_add]; congr 1; ring
    _ ≤ m <<< k := two_pow_le_shiftLeft hm h

theorem full_root {m k : ℕ} (hm : 0 < m) (h : 46 ≤ m.log2 + k) : 2 ^ 23 ≤ (m <<< k).sqrt := by
  rw [Nat.le_sqrt, ← pow_add]
  exact two_pow_le_shiftLeft hm h

theorem mul_eq (x y : Float32) :
    x * y = .ofModel (.pack (mul Format.binary32 x.toModel.unpack y.toModel.unpack)) := rfl

theorem div_eq (x y : Float32) :
    x / y = .ofModel (.pack (div Format.binary32 x.toModel.unpack y.toModel.unpack)) := rfl

theorem nearest_mul (hx : reading x = .number s p) (hy : reading y = .number t q) :
    Nearest (x * y) (s != t) (p * q) := by
  have hzero (h : x * y = .ofModel (.pack (.zero (signOf s * signOf t)))) (hpq : p * q = 0) :
      Nearest (x * y) (s != t) (p * q) := by
    apply nearest_self
    rw [h, reading_pack_zero, signOf_mul, signOf_eq_negative, hpq]
  obtain ⟨hu, rfl⟩ | ⟨m, e, hm, hu, hc, hp⟩ := form_of_number hx
  · obtain ⟨hv, -⟩ | ⟨n, f, hn, hv, -, -⟩ := form_of_number hy <;>
      exact hzero (by rw [mul_eq, hu, hv]; rfl) (zero_mul q)
  obtain ⟨hv, rfl⟩ | ⟨n, f, hn, hv, hd, hq⟩ := form_of_number hy
  · exact hzero (by rw [mul_eq, hu, hv]; rfl) (mul_zero p)
  have hmul : x * y = .ofModel (.pack (roundWithAccuracy Format.binary32 (signOf s * signOf t)
      (m * n) (e + f) .exact)) := by
    rw [mul_eq, hu, hv]
    rfl
  have hval : p * q = (m * n : ℕ) * 2 ^ (e + f) := by
    rw [hp, hq, zpow_add₀ two_ne_zero]
    push_cast
    ring
  have he : e + f ≤ Format.binary32.targetExponent (totalExponent (m * n) (e + f)) := by
    apply le_targetExponent
    by_cases hfull : 2 ^ 23 ≤ m * n
    · exact .inl hfull
    · have hm' := hc.full.resolve_left fun h => hfull (h.trans (Nat.le_mul_of_pos_right m hn))
      have hn' := hd.full.resolve_left fun h => hfull (h.trans (Nat.le_mul_of_pos_left n hm))
      exact .inr (by omega)
  have hexact : Approximates (m * n) (m * n : ℕ) .exact := rfl
  have h := nearest_roundWithAccuracy hexact he (signOf s * signOf t)
  rwa [hmul, hval, ← signOf_eq_negative (s != t), ← signOf_mul]

theorem rounds_mul (hx : reading x = .number s p) (hy : reading y = .number t q) :
    Rounds (x * y) (s != t) (p * q) :=
  (nearest_mul hx hy).rounds

theorem approximates_quotient (k : ℕ) {n : ℕ} (hn : 0 < n) :
    Approximates (k / n) ((k : ℝ) / n) (accuracyOfFraction (k % n) n) := by
  have hn' : (0 : ℝ) < n := by exact_mod_cast hn
  have hk : (k : ℝ) = n * (k / n : ℕ) + (k % n : ℕ) := by exact_mod_cast (Nat.div_add_mod k n).symm
  have hlt : ((k % n : ℕ) : ℝ) < n := by exact_mod_cast Nat.mod_lt k hn
  by_cases hr : k % n = 0
  · rw [accuracyOfFraction, if_pos hr]
    rw [hr, Nat.cast_zero, add_zero] at hk
    change (k : ℝ) / n = (k / n : ℕ)
    rw [hk]
    field_simp
  · have hpos : (0 : ℝ) < (k % n : ℕ) := by exact_mod_cast Nat.pos_of_ne_zero hr
    have hquotient : (k : ℝ) / n = (k / n : ℕ) + (k % n : ℕ) / n := by
      conv_lhs => rw [hk]
      field_simp
    have hfraction : ((k % n : ℕ) : ℝ) / n < 1 := (div_lt_one hn').mpr hlt
    have hhalf : compare ((k : ℝ) / n) ((k / n : ℕ) + 1 / 2) = compare (2 * (k % n)) n := by
      rw [hquotient]
      obtain h | h | h := lt_trichotomy (2 * (k % n)) n
      · have h' : (2 : ℝ) * (k % n : ℕ) < n := by exact_mod_cast h
        rw [compare_lt_iff_lt.mpr h, compare_lt_iff_lt, add_lt_add_iff_left, div_lt_iff₀ hn']
        linarith
      · have h' : (2 : ℝ) * (k % n : ℕ) = n := by exact_mod_cast h
        rw [compare_eq_iff_eq.mpr h, compare_eq_iff_eq, add_right_inj, div_eq_iff hn'.ne']
        linarith
      · have h' : (n : ℝ) < 2 * (k % n : ℕ) := by exact_mod_cast h
        rw [compare_gt_iff_gt.mpr h, compare_gt_iff_gt, add_lt_add_iff_left,
          lt_div_iff₀ hn']
        linarith
    rw [accuracyOfFraction, if_neg hr]
    exact ⟨by rw [hquotient]; linarith [div_pos hpos hn'], by rw [hquotient]; linarith, hhalf⟩

theorem nearest_div (hx : reading x = .number s p) (hy : reading y = .number t q) (hpos : 0 < q) :
    Nearest (x / y) (s != t) (p / q) := by
  obtain ⟨-, rfl⟩ | ⟨n, f, hn, hv, hd, hq⟩ := form_of_number hy
  · exact absurd hpos (lt_irrefl 0)
  obtain ⟨hu, rfl⟩ | ⟨m, e, hm, hu, hc, hp⟩ := form_of_number hx
  · have h : x / y = .ofModel (.pack (.zero (signOf s / signOf t))) := by
      rw [div_eq, hu, hv]
      rfl
    apply nearest_self
    rw [h, reading_pack_zero, signOf_div, signOf_eq_negative, zero_div]
  obtain ⟨g, hg⟩ : ∃ g, g = min (e - f) (Format.binary32.targetExponent
    (totalExponent m e - totalExponent n f)) := ⟨_, rfl⟩
  obtain ⟨k, hk⟩ : ∃ k : ℕ, k = (e - f - g).toNat := ⟨_, rfl⟩
  have hdiv : x / y = .ofModel (.pack (roundWithAccuracy Format.binary32 (signOf s / signOf t)
      ((m <<< k) / n) g (accuracyOfFraction ((m <<< k) % n) n))) := by
    rw [div_eq, hu, hv, hk, hg]
    rfl
  have hge : g ≤ e - f := hg ▸ min_le_left _ _
  have hval : p / q = ((m <<< k : ℕ) : ℝ) / n * 2 ^ g := by
    have he : e = f + g + k := by omega
    rw [hp, hq, Nat.shiftLeft_eq, he, zpow_add₀ two_ne_zero, zpow_add₀ two_ne_zero, zpow_natCast]
    push_cast
    field_simp
  have htarget : g ≤ Format.binary32.targetExponent (totalExponent ((m <<< k) / n) g) := by
    have hg' : g ≤ max ((m.log2 : ℤ) + e - (n.log2 + f) - 24) (-149) := by
      have hbits : (Format.binary32.mantissaBits : ℤ) = 24 := rfl
      have hmin : Format.binary32.minExponent = -149 := rfl
      rw [Format.targetExponent, totalExponent, totalExponent, hbits, hmin] at hg
      omega
    apply le_targetExponent
    by_cases hleast : g ≤ -149
    · exact .inr hleast
    · exact .inl (full_quotient hm hn (by omega))
  have h := nearest_roundWithAccuracy (approximates_quotient (m <<< k) hn) htarget
    (signOf s / signOf t)
  rwa [hdiv, hval, ← signOf_eq_negative (s != t), ← signOf_div]

theorem rounds_div (hx : reading x = .number s p) (hy : reading y = .number t q) (hpos : 0 < q) :
    Rounds (x / y) (s != t) (p / q) :=
  (nearest_div hx hy hpos).rounds

theorem approximates_root (k : ℕ) :
    Approximates k.sqrt (√(k : ℝ)) (if k - k.sqrt * k.sqrt = 0 then .exact
      else .inexact (if k - k.sqrt * k.sqrt ≤ k.sqrt then .lt else .gt)) := by
  have hle : k.sqrt * k.sqrt ≤ k := Nat.sqrt_le k
  have hlt : k < (k.sqrt + 1) * (k.sqrt + 1) := Nat.lt_succ_sqrt k
  by_cases hr : k - k.sqrt * k.sqrt = 0
  · have hk : k = k.sqrt * k.sqrt := by omega
    rw [if_pos hr]
    change √(k : ℝ) = k.sqrt
    conv_lhs => rw [hk]
    rw [Nat.cast_mul, Real.sqrt_mul_self (Nat.cast_nonneg _)]
  · rw [if_neg hr]
    refine ⟨?_, ?_, ?_⟩
    · rw [Real.lt_sqrt (Nat.cast_nonneg _), sq]
      exact_mod_cast (by omega : k.sqrt * k.sqrt < k)
    · rw [Real.sqrt_lt' (by positivity), sq]
      exact_mod_cast hlt
    · -- the square of half a unit more is no integer
      have hsquare : ((k.sqrt : ℝ) + 1 / 2) ^ 2 = (k.sqrt * k.sqrt + k.sqrt : ℕ) + 1 / 4 := by
        push_cast
        ring
      split_ifs with hhalf
      · have hk : (k : ℝ) ≤ (k.sqrt * k.sqrt + k.sqrt : ℕ) := by exact_mod_cast (by omega)
        rw [compare_lt_iff_lt, Real.sqrt_lt' (by positivity), hsquare]
        linarith
      · have hk : ((k.sqrt * k.sqrt + k.sqrt : ℕ) : ℝ) + 1 ≤ k := by exact_mod_cast (by omega)
        rw [compare_gt_iff_gt, Real.lt_sqrt (by positivity), hsquare]
        linarith

theorem nearest_sqrt (hx : reading x = .number false p) : Nearest x.sqrt false (√p) := by
  have hsqrt : x.sqrt = .ofModel (.pack (sqrt Format.binary32 x.toModel.unpack)) := rfl
  obtain ⟨hu, rfl⟩ | ⟨m, e, hm, hu, hc, hp⟩ := form_of_number hx
  · rw [hsqrt, hu, Real.sqrt_zero]
    exact nearest_of_zero (reading_pack_zero .positive)
  obtain ⟨g, hg⟩ : ∃ g, g = min (e.ediv 2) (Format.binary32.targetExponent
    ((totalExponent m e + 1).ediv 2)) := ⟨_, rfl⟩
  obtain ⟨k, hk⟩ : ∃ k : ℕ, k = (e - 2 * g).toNat := ⟨_, rfl⟩
  have hroot : x.sqrt = .ofModel (.pack (roundWithAccuracy Format.binary32 .positive
      (m <<< k).sqrt g (if m <<< k - (m <<< k).sqrt * (m <<< k).sqrt = 0 then .exact
        else .inexact (if m <<< k - (m <<< k).sqrt * (m <<< k).sqrt ≤ (m <<< k).sqrt then .lt
          else .gt)))) := by
    rw [hsqrt, hu, hk, hg]
    rfl
  have hge : 2 * g ≤ e := by
    have h₁ : g ≤ e / 2 := hg ▸ min_le_left _ _
    omega
  have hval : √p = √(m <<< k : ℕ) * 2 ^ g := by
    have he : e = 2 * g + k := by omega
    have hpos : (0 : ℝ) < 2 ^ g := by positivity
    rw [hp, Nat.shiftLeft_eq, he, zpow_add₀ two_ne_zero, zpow_natCast, two_mul,
      zpow_add₀ two_ne_zero, mul_comm ((2 : ℝ) ^ g * 2 ^ g), ← mul_assoc,
      Real.sqrt_mul (by positivity),
      Real.sqrt_mul_self hpos.le]
    push_cast
    rfl
  have htarget : g ≤ Format.binary32.targetExponent (totalExponent (m <<< k).sqrt g) := by
    have hg' : g ≤ max (((m.log2 : ℤ) + e + 2) / 2 - 24) (-149) := by
      have hbits : (Format.binary32.mantissaBits : ℤ) = 24 := rfl
      have hmin : Format.binary32.minExponent = -149 := rfl
      have hle : g ≤ Format.binary32.targetExponent ((totalExponent m e + 1) / 2) :=
        hg ▸ min_le_right _ _
      rw [Format.targetExponent, totalExponent, hbits, hmin] at hle
      omega
    apply le_targetExponent
    by_cases hleast : g ≤ -149
    · exact .inr hleast
    · exact .inl (full_root hm (by omega))
  rw [hroot, hval]
  exact nearest_roundWithAccuracy (approximates_root (m <<< k)) htarget .positive

theorem rounds_sqrt (hx : reading x = .number false p) : Rounds x.sqrt false (√p) :=
  (nearest_sqrt hx).rounds

theorem signedNat_eq (s : Bool) (n : ℕ) : ((Value.signedNat s n : ℤ) : ℝ) = signed s n := by
  cases s <;> simp [Value.signedNat]

/-- The exact sum of two values, as it is rounded. -/
theorem nearest_add_toSingle (s t : Bool) (m n : ℕ) (e f : ℤ) :
    Nearest ((Value.finite s m e).add (.finite t n f)).toSingle
      (sumSign s t (signed s (m * 2 ^ e) + signed t (n * 2 ^ f)))
      |signed s (m * 2 ^ e) + signed t (n * 2 ^ f)| := by
  obtain ⟨g, hg⟩ : ∃ g, g = min e f := ⟨_, rfl⟩
  obtain ⟨k, hk⟩ : ∃ k, k = Value.signedNat s (m <<< (e - g).toNat) +
    Value.signedNat t (n <<< (f - g).toNat) := ⟨_, rfl⟩
  have hadd : (Value.finite s m e).add (.finite t n f) =
      if k = 0 then .finite (s && t) 0 g else .finite (decide (k < 0)) k.natAbs g := by
    rw [hk, hg]
    rfl
  have hval : (k : ℝ) * 2 ^ g = signed s (m * 2 ^ e) + signed t (n * 2 ^ f) := by
    have hm := decreaseExponent_eq (hg ▸ min_le_left e f : g ≤ e) m
    have hn := decreaseExponent_eq (hg ▸ min_le_right e f : g ≤ f) n
    rw [decreaseExponent] at hm hn
    rw [hk, Int.cast_add, signedNat_eq, signedNat_eq, add_mul, ← signed_mul, ← signed_mul, hm, hn]
  have hpos : (0 : ℝ) < 2 ^ g := by positivity
  rw [hadd, ← hval, abs_mul, abs_of_pos hpos]
  by_cases hz : k = 0
  · rw [if_pos hz, hz, Int.cast_zero, abs_zero, zero_mul, sumSign, if_pos rfl]
    simpa using nearest_toSingle (s && t) 0 g
  · have habs : |(k : ℝ)| = (k.natAbs : ℕ) := by
      rw [← Int.cast_abs, Int.abs_eq_natAbs, Int.cast_natCast]
    rw [if_neg hz, sumSign_of_ne s t hz, habs]
    exact nearest_toSingle _ _ _

theorem nearest_mulAdd (hx : reading x = .number s p) (hy : reading y = .number t q)
    (hz : reading z = .number u r) :
    Nearest (mulAdd x y z) (sumSign (s != t) u (signed (s != t) (p * q) + signed u r))
      |signed (s != t) (p * q) + signed u r| := by
  obtain ⟨m, e, hm, rfl⟩ := form_of_reading hx
  obtain ⟨n, f, hn, rfl⟩ := form_of_reading hy
  obtain ⟨k, g, hk, rfl⟩ := form_of_reading hz
  have hval : (m : ℝ) * 2 ^ e * (n * 2 ^ f) = (m * n : ℕ) * 2 ^ (e + f) := by
    rw [zpow_add₀ two_ne_zero]
    push_cast
    ring
  rw [mulAdd, hm, hn, hk, hval]
  exact nearest_add_toSingle (s != t) u (m * n) k (e + f) g

theorem rounds_mulAdd (hx : reading x = .number s p) (hy : reading y = .number t q)
    (hz : reading z = .number u r) :
    Rounds (mulAdd x y z) (sumSign (s != t) u (signed (s != t) (p * q) + signed u r))
      |signed (s != t) (p * q) + signed u r| :=
  (nearest_mulAdd hx hy hz).rounds

/-- Natural numbers of 23 digits are exact. -/
theorem reading_ofNat {n : ℕ} (hn : n < 2 ^ 23) : reading (Float32.ofNat n) = .number false n := by
  have hgrid : Grid n := Grid.nat (by omega)
  have hone : reading 1 = .number false 1 := by
    have hv : Value.ofSingle 1 = .finite false (2 ^ 23) (-23) := by decide +kernel
    rw [reading, hv]
    norm_num [Value.reading]
  have heq : Float32.ofNat n = n.toUInt64.toFloat32 * 1 := by
    have h : Float32.ofNat n = Float32.ofScientific n false 0 := rfl
    rw [h, Float32.ofScientific, dif_pos ⟨hn, by decide⟩]
    rfl
  have hword : n.toUInt64.toFloat32 =
        .ofModel (.pack (UnpackedFloat.normalize Format.binary32 n 0 .positive)) := by
    have hn' : n.toUInt64.toNat = n := Nat.mod_eq_of_lt (by omega)
    have h : n.toUInt64.toFloat32 =
        .ofModel
          (.pack (UnpackedFloat.normalize Format.binary32 n.toUInt64.toNat 0 .positive)) := rfl
    rw [h, hn']
  have hread : reading n.toUInt64.toFloat32 = .number false n := by
    rw [hword]
    by_cases hz : n = 0
    · subst hz
      rw [Nat.cast_zero, Nat.cast_zero]
      exact reading_pack_zero .positive
    · have h := nearest_normalize (m := n) (by exact_mod_cast hz) 0 .positive
      rw [decide_eq_false (by omega)] at h
      exact Rounds.exact (Nearest.rounds (by simpa using h)) hgrid
  rw [heq]
  exact Rounds.exact (by simpa using rounds_mul hread hone) hgrid
end VisibleDifference.Binary
