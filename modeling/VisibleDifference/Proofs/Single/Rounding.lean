import VisibleDifference.Proofs.Single.Reading

/-!
# Rounding

Results are rounded to the nearest number, and a tie to the one with an even mantissa. Both ways in
which this is computed here do so, the guard bits that core carries along and the bits counted by
`nearestBits`. For bounds a weaker fact is enough: a number rounds a size if it has no number
strictly between itself and the size, so that numbers below the size stay below, and those above
stay above.
-/

namespace VisibleDifference.Binary

open Float.Model (Format UnpackedFloat totalExponent)
open Float.Model.UnpackedFloat

variable {x : Float32} {s : Bool} {q : ℝ} {t : ℤ}

structure Rounds (x : Float32) (negative : Bool) (q : ℝ) : Prop where
  below : ∀ {b}, Grid b → q ≤ b → ∃ r, reading x = .number negative r ∧ r ≤ b
  above : ∀ {b}, Grid b → b ≤ q →
    reading x = .infinite negative ∨ ∃ r, reading x = .number negative r ∧ b ≤ r

/-- A grid point is its own rounding. -/
theorem Rounds.exact (h : Rounds x s q) (hq : Grid q) : reading x = .number s q := by
  obtain ⟨r, hr, hle⟩ := h.below hq le_rfl
  obtain hx | ⟨r', hr', hle'⟩ := h.above hq le_rfl
  · rw [hr] at hx
    cases hx
  · rw [hr] at hr'
    cases hr'
    rw [hr, le_antisymm hle hle']

/-- `2 ^ t` is the distance of grid points around `q`. -/
structure Step (t : ℤ) (q : ℝ) : Prop where
  least : -149 ≤ t
  full : t = -149 ∨ (2 : ℝ) ^ (t + 23) ≤ q
  lt : q < 2 ^ (t + 24)

theorem two_zpow_add (s t : ℤ) : (2 : ℝ) ^ (s + t) = 2 ^ t * 2 ^ s := by
  rw [zpow_add₀ two_ne_zero, mul_comm]

section Near

variable (ht : Step t q) {n : ℕ} (hn : |(n : ℝ) * 2 ^ t - q| < 2 ^ t)

include ht hn

theorem le_of_near : n ≤ 2 ^ 24 := by
  have hpos : (0 : ℝ) < 2 ^ t := by positivity
  have hq := ht.lt
  rw [two_zpow_add] at hq
  have hlt : (n : ℝ) < 2 ^ (24 : ℤ) + 1 := by nlinarith [(abs_lt.mp hn).2]
  exact Nat.lt_succ_iff.mp (by exact_mod_cast hlt)

theorem full_of_near : 2 ^ 23 ≤ n ∨ t = -149 := by
  refine ht.full.symm.imp_left fun hq => ?_
  have hpos : (0 : ℝ) < 2 ^ t := by positivity
  rw [two_zpow_add] at hq
  have hlt : (2 : ℝ) ^ (23 : ℤ) < n + 1 := by nlinarith [(abs_lt.mp hn).1]
  exact Nat.lt_succ_iff.mp (by exact_mod_cast hlt)

end Near

theorem near_scale {n : ℕ} {r : ℝ} (hn : |(n : ℝ) - r| < 1) (t : ℤ) :
    |(n : ℝ) * 2 ^ t - r * 2 ^ t| < 2 ^ t := by
  rw [← sub_mul, abs_mul, abs_of_pos (show (0 : ℝ) < 2 ^ t by positivity)]
  exact mul_lt_of_lt_one_left (by positivity) hn

theorem rounds_of_near (ht : Step t q) {n : ℕ} (hn : |(n : ℝ) * 2 ^ t - q| < 2 ^ t)
    (hx : reading x =
      if (n : ℝ) * 2 ^ t < 2 ^ (128 : ℤ) then .number s (n * 2 ^ t) else .infinite s) :
    Rounds x s q := by
  have hpos : (0 : ℝ) < 2 ^ t := by positivity
  obtain ⟨hlow, hhigh⟩ := abs_lt.mp hn
  have hle {b : ℝ} (hb : Grid b) (hq : q ≤ b) : (n : ℝ) * 2 ^ t ≤ b := by
    obtain ⟨k, rfl⟩ | ⟨hlt, hleast⟩ := hb.multiple_or_lt t
    · have hk : (n : ℝ) < k + 1 := by nlinarith
      have hk : n ≤ k := by exact_mod_cast Nat.lt_succ_iff.mp (by exact_mod_cast hk)
      gcongr
    · have := ht.full.resolve_left (by omega)
      linarith
  have hge {b : ℝ} (hb : Grid b) (hq : b ≤ q) : b ≤ (n : ℝ) * 2 ^ t := by
    obtain ⟨k, rfl⟩ | ⟨hlt, hleast⟩ := hb.multiple_or_lt t
    · have hk : (k : ℝ) < n + 1 := by nlinarith
      have hk : k ≤ n := by exact_mod_cast Nat.lt_succ_iff.mp (by exact_mod_cast hk)
      gcongr
    · have hk : 2 ^ 23 ≤ n := (full_of_near ht hn).resolve_right (by omega)
      have hk : (2 : ℝ) ^ (23 : ℤ) ≤ n := by exact_mod_cast hk
      rw [two_zpow_add] at hlt
      calc b ≤ 2 ^ (23 : ℤ) * 2 ^ t := hlt.le
        _ ≤ n * 2 ^ t := by gcongr
  constructor
  · intro b hb hq
    have := hle hb hq
    rw [if_pos (this.trans_lt hb.lt_overflow)] at hx
    exact ⟨_, hx, this⟩
  · intro b hb hq
    split_ifs at hx
    · exact .inr ⟨_, hx, hge hb hq⟩
    · exact .inl hx

/-- The natural number nearest to `r`, an even one if `r` is halfway between two. -/
structure NearestEven (n : ℕ) (r : ℝ) : Prop where
  near : |(n : ℝ) - r| ≤ 1 / 2
  even_of_tie : |(n : ℝ) - r| = 1 / 2 → Even n

namespace NearestEven

variable {m n : ℕ} {r r' : ℝ}

theorem of_lt (h : |(n : ℝ) - r| < 1 / 2) : NearestEven n r := ⟨h.le, fun he => absurd he h.ne⟩

theorem natCast (n : ℕ) : NearestEven n n := of_lt (by norm_num)

theorem near_scaled (h : NearestEven n (q / 2 ^ t)) : |(n : ℝ) * 2 ^ t - q| < 2 ^ t := by
  have hn := near_scale (h.near.trans_lt one_half_lt_one) t
  rwa [div_mul_cancel₀ q (zpow_ne_zero t two_ne_zero)] at hn

end NearestEven

/-- The number nearest to a size, with a sign; sizes that round to `2 ^ 128` or more are infinite. -/
inductive Nearest (x : Float32) (negative : Bool) (q : ℝ) : Prop
  | of (t : ℤ) (n : ℕ) : Step t q → NearestEven n (q / 2 ^ t) →
      (reading x = if (n : ℝ) * 2 ^ t < 2 ^ (128 : ℤ) then .number negative (n * 2 ^ t)
        else .infinite negative) → Nearest x negative q

theorem Nearest.rounds (h : Nearest x s q) : Rounds x s q := by
  obtain ⟨t, n, ht, hn, hx⟩ := h
  exact rounds_of_near ht hn.near_scaled hx

/-- Between two natural numbers, and on which side of the middle. -/
structure Between (m : ℕ) (q : ℝ) (half : Ordering) : Prop where
  low : m < q
  high : q < m + 1
  side : compare q (m + 1 / 2) = half

/-- What is known of `q` from its mantissa and accuracy. -/
def Approximates (m : ℕ) (q : ℝ) : Accuracy → Prop
  | .exact => q = m
  | .inexact half => Between m q half

namespace Approximates

variable {m : ℕ} {a : Accuracy}

theorem le (h : Approximates m q a) : (m : ℝ) ≤ q := by
  match a, h with
  | .exact, h => exact ge_of_eq h
  | .inexact _, h => exact h.low.le

theorem lt (h : Approximates m q a) : q < m + 1 := by
  match a, h with
  | .exact, h => exact (le_of_eq h).trans_lt (lt_add_one _)
  | .inexact _, h => exact h.high

theorem nearestEven (h : Approximates m q a) : NearestEven (a.roundToNearestEven m) q := by
  match a, h with
  | .exact, h =>
    obtain rfl : q = m := h
    exact .natCast m
  | .inexact .lt, ⟨hlow, hhigh, hhalf⟩ =>
    have hhalf := compare_lt_iff_lt.mp hhalf
    refine .of_lt ?_
    simp only [Accuracy.roundToNearestEven]
    exact abs_lt.mpr ⟨by linarith, by linarith⟩
  | .inexact .gt, ⟨hlow, hhigh, hhalf⟩ =>
    have hhalf := compare_gt_iff_gt.mp hhalf
    refine .of_lt ?_
    simp only [Accuracy.roundToNearestEven, Nat.cast_add, Nat.cast_one]
    exact abs_lt.mpr ⟨by linarith, by linarith⟩
  | .inexact .eq, ⟨_, _, hhalf⟩ =>
    obtain rfl := compare_eq_iff_eq.mp hhalf
    simp only [Accuracy.roundToNearestEven]
    obtain hm | hm := Nat.mod_two_eq_zero_or_one m
    · rw [hm, add_zero]
      exact ⟨by norm_num, fun _ => Nat.even_iff.mpr hm⟩
    · rw [hm]
      refine ⟨by norm_num, fun _ => Nat.even_iff.mpr (by omega)⟩

end Approximates

/-- A mantissa cut off below `q`; its bits tell how much is missing. -/
def Holds (em : ExtendedMantissa) (q : ℝ) : Prop := Approximates em.mantissa q em.accuracy

namespace Holds

variable {em : ExtendedMantissa}

theorem exact_or_between (h : Holds em q) :
    (em.roundBit || em.stickyBit) = false ∧ q = em.mantissa ∨
      (em.roundBit || em.stickyBit) = true ∧ em.mantissa < q ∧ q < em.mantissa + 1 := by
  obtain ⟨m, r, s⟩ := em
  cases r <;> cases s
  · exact .inl ⟨rfl, h⟩
  all_goals exact .inr ⟨rfl, h.low, h.high⟩

theorem shiftRightOne (h : Holds em q) : Holds em.shiftRightOne (q / 2) := by
  obtain ⟨m, r, s⟩ := em
  have hm : (m : ℝ) = 2 * (m / 2 : ℕ) + (m % 2 : ℕ) := by exact_mod_cast (Nat.div_add_mod m 2).symm
  have h := h.exact_or_between
  simp only [Holds, ExtendedMantissa.shiftRightOne] at *
  -- the bit shifted out tells which half of the unit `q / 2` is in
  obtain hbit | hbit := Nat.mod_two_eq_zero_or_one m
  · rw [hbit, Nat.cast_zero, add_zero] at hm
    obtain ⟨hrs, hq⟩ | ⟨hrs, hlow, hhigh⟩ := h
    · rw [hbit, hrs]
      show q / 2 = (m / 2 : ℕ)
      linarith
    · rw [hbit, hrs]
      exact ⟨by linarith, by linarith, compare_lt_iff_lt.mpr (by linarith)⟩
  · rw [hbit, Nat.cast_one] at hm
    obtain ⟨hrs, hq⟩ | ⟨hrs, hlow, hhigh⟩ := h
    · rw [hbit, hrs]
      exact ⟨by linarith, by linarith, compare_eq_iff_eq.mpr (by linarith)⟩
    · rw [hbit, hrs]
      exact ⟨by linarith, by linarith, compare_gt_iff_gt.mpr (by linarith)⟩

theorem shiftRight (h : Holds em q) (n : ℕ) : Holds (em >>> n) (q / 2 ^ n) := by
  change Holds (n.repeat ExtendedMantissa.shiftRightOne em) _
  induction n with
  | zero => simpa [Nat.repeat] using h
  | succ n ih =>
    rw [Nat.repeat, pow_succ, ← div_div]
    exact ih.shiftRightOne

end Holds

theorem holds_ofMantissaAndAccuracy {m : ℕ} {a : Accuracy} (h : Approximates m q a) :
    Holds (.ofMantissaAndAccuracy m a) q := by
  match a, h with
  | .exact, h | .inexact .lt, h | .inexact .eq, h | .inexact .gt, h => exact h

theorem targetExponent_eq (m : ℕ) (e : ℤ) :
    Format.binary32.targetExponent (totalExponent m e) = max (m.log2 + e - 23) (-149) := by
  have hbits : (Format.binary32.mantissaBits : ℤ) = 24 := rfl
  have hleast : Format.binary32.minExponent = -149 := rfl
  rw [Format.targetExponent, totalExponent, hbits, hleast]
  congr 1
  omega

theorem shiftToTargetExponent_eq (m : ℕ) (e : ℤ) (a : Accuracy) :
    shiftToTargetExponent Format.binary32 m e a =
      (ExtendedMantissa.ofMantissaAndAccuracy m a >>> (max (m.log2 + e - 23) (-149) - e).toNat,
        max (max (m.log2 + e - 23) (-149)) e) := by
  simp only [shiftToTargetExponent, targetExponent_eq, shiftToExponent]
  congr 1
  omega

theorem shiftToTargetExponent_of_lt {n : ℕ} (hn : n < 2 ^ 24) (ht : -149 ≤ t) :
    shiftToTargetExponent Format.binary32 n t .exact = (⟨n, false, false⟩, t) := by
  have hlog : n.log2 ≤ 23 := by
    by_cases hz : n = 0
    · simp [hz]
    · exact Nat.lt_succ_iff.mp ((Nat.log2_lt hz).mpr hn)
  have hshift : (max (n.log2 + t - 23) (-149) - t).toNat = 0 := by omega
  rw [shiftToTargetExponent_eq, hshift]
  congr 1
  omega

theorem shiftToTargetExponent_full (ht : -149 ≤ t) :
    shiftToTargetExponent Format.binary32 (2 ^ 24) t .exact = (⟨2 ^ 23, false, false⟩, t + 1) := by
  have hlog : (2 ^ 24).log2 = 24 := Nat.log2_two_pow
  have hshift : (max (((24 : ℕ) : ℤ) + t - 23) (-149) - t).toNat = 1 := by omega
  rw [shiftToTargetExponent_eq, hlog, hshift]
  congr 1
  omega

theorem step_of_approximates {m : ℕ} {a : Accuracy} {e : ℤ} (h : Approximates m q a)
    (hz : m = 0 → e ≤ -149) : Step (max (m.log2 + e - 23) (-149)) (q * 2 ^ e) := by
  have hlow := h.le
  have hhigh := h.lt
  refine ⟨le_max_right _ _, ?_, ?_⟩
  · by_cases hm : m = 0
    · have := hz hm
      rw [hm, Nat.log2_zero]
      left
      omega
    · by_cases hmin : max (m.log2 + e - 23) (-149) = -149
      · exact .inl hmin
      · right
        have ht : max (m.log2 + e - 23) (-149) + 23 = m.log2 + e := by omega
        have hlog : ((2 : ℝ) ^ m.log2) ≤ m := by exact_mod_cast Nat.log2_self_le hm
        rw [ht, zpow_add₀ two_ne_zero, zpow_natCast]
        gcongr
        exact hlog.trans hlow
  · have hlog : (m + 1 : ℝ) ≤ 2 ^ (m.log2 + 1) := by exact_mod_cast Nat.lt_log2_self
    calc q * 2 ^ e < 2 ^ (m.log2 + 1) * 2 ^ e := by gcongr; exact hhigh.trans_le hlog
      _ = 2 ^ ((m.log2 + 1 : ℕ) + e) := by rw [zpow_add₀ two_ne_zero, zpow_natCast]
      _ ≤ 2 ^ (max (m.log2 + e - 23) (-149) + 24) :=
        zpow_le_zpow_right₀ one_le_two (by push_cast; omega)

/-- A mantissa that is rounded up to a power of two is halved. -/
theorem nearest_pack (ht : Step t q) {n : ℕ} (hn : NearestEven n (q / 2 ^ t)) (s : Sign) :
    Nearest (.ofModel (.pack (
      let (em, e) := shiftToTargetExponent Format.binary32 n t .exact
      if h : em.mantissa = 0 then .zero s else .finite s em.mantissa e (Nat.pos_of_ne_zero h))))
      (s == .negative) q := by
  refine ⟨t, n, ht, hn, ?_⟩
  have hn := hn.near_scaled
  obtain hlt | rfl := Nat.lt_or_eq_of_le (le_of_near ht hn)
  · rw [shiftToTargetExponent_of_lt hlt ht.least]
    by_cases hz : n = 0
    · subst hz
      simp [reading_pack_zero]
    · simp only [dif_neg hz]
      exact reading_pack_finite (Nat.pos_of_ne_zero hz) hlt ht.least (full_of_near ht hn)
  · rw [shiftToTargetExponent_full ht.least]
    have hval : ((2 ^ 24 : ℕ) : ℝ) * 2 ^ t = (2 ^ 23 : ℕ) * 2 ^ (t + 1) := by
      rw [zpow_add_one₀ two_ne_zero]
      push_cast
      ring
    rw [hval]
    exact reading_pack_finite (by norm_num) (by norm_num) (by have := ht.least; omega)
      (.inl (le_refl _))

theorem nearest_roundWithAccuracy {m : ℕ} {e : ℤ} {a : Accuracy} (h : Approximates m q a)
    (he : e ≤ Format.binary32.targetExponent (totalExponent m e)) (s : Sign) :
    Nearest (.ofModel (.pack (roundWithAccuracy Format.binary32 s m e a))) (s == .negative)
      (q * 2 ^ e) := by
  rw [targetExponent_eq] at he
  unfold roundWithAccuracy
  rw [shiftToTargetExponent_eq m, max_eq_left he]
  have hz : m = 0 → e ≤ -149 := by
    rintro rfl
    rw [Nat.log2_zero] at he
    omega
  obtain ⟨k, hk⟩ := Int.le.dest he
  have hk' : (max (m.log2 + e - 23) (-149) - e).toNat = k := by omega
  have hscale : q * 2 ^ e / 2 ^ max (m.log2 + e - 23) (-149) = q / 2 ^ k := by
    rw [← hk, zpow_add₀ two_ne_zero, zpow_natCast]
    field_simp
  have hheld := (holds_ofMantissaAndAccuracy h).shiftRight k
  rw [hk']
  refine nearest_pack (step_of_approximates h hz) ?_ s
  rw [hscale]
  exact hheld.nearestEven

theorem log2_shiftLeft {m : ℕ} (hm : m ≠ 0) (k : ℕ) : (m <<< k).log2 = m.log2 + k := by
  have hm' := (Nat.log2_eq_iff hm).mp rfl
  rw [Nat.shiftLeft_eq, Nat.log2_eq_iff (by positivity)]
  constructor
  · rw [pow_add]
    exact Nat.mul_le_mul_right _ hm'.1
  · rw [add_right_comm, pow_add]
    exact Nat.mul_lt_mul_of_pos_right hm'.2 (by positivity)

theorem nearest_round {m : ℕ} (hm : m ≠ 0) (e : ℤ) (s : Sign) :
    Nearest (.ofModel (.pack (round Format.binary32 s m e))) (s == .negative) (m * 2 ^ e) := by
  obtain ⟨k, hk⟩ : ∃ k : ℕ, k = (e - Format.binary32.targetExponent (totalExponent m e)).toNat :=
    ⟨_, rfl⟩
  have hround : round Format.binary32 s m e =
      roundWithAccuracy Format.binary32 s (m <<< k) (e - k) .exact := by rw [hk]; rfl
  have hval : (m : ℝ) * 2 ^ e = (m <<< k : ℕ) * 2 ^ (e - k) := by
    rw [Nat.shiftLeft_eq, zpow_sub₀ two_ne_zero, zpow_natCast]
    push_cast
    field_simp
  rw [hround, hval]
  have hexact : Approximates (m <<< k) (m <<< k : ℕ) .exact := rfl
  refine nearest_roundWithAccuracy hexact ?_ s
  rw [targetExponent_eq] at hk ⊢
  rw [log2_shiftLeft hm]
  push_cast
  omega

theorem nearest_normalize {m : ℤ} (hm : m ≠ 0) (e : ℤ) (s : Sign) :
    Nearest (.ofModel (.pack (UnpackedFloat.normalize Format.binary32 m e s))) (decide (m < 0))
      (|(m : ℝ)| * 2 ^ e) := by
  obtain h | h := Int.lt_or_gt_of_ne hm
  · have habs : |(m : ℝ)| = ((-m).toNat : ℕ) := by
      rw [abs_of_neg (by exact_mod_cast h)]
      exact_mod_cast (Int.toNat_of_nonneg (by omega)).symm
    rw [UnpackedFloat.normalize, Int.compare_eq_lt.mpr h, habs, decide_eq_true h]
    exact nearest_round (by omega) e .negative
  · have habs : |(m : ℝ)| = (m.toNat : ℕ) := by
      rw [abs_of_pos (by exact_mod_cast h)]
      exact_mod_cast (Int.toNat_of_nonneg (by omega)).symm
    rw [UnpackedFloat.normalize, Int.compare_eq_gt.mpr h, habs, decide_eq_false (by omega)]
    exact nearest_round (by omega) e .positive

theorem nearestEven_roundShift (n : ℕ) (t : ℤ) :
    NearestEven (roundShift n t) (n * 2 ^ (-t)) := by
  by_cases ht : t ≤ 0
  · obtain ⟨k, hk⟩ := Int.eq_ofNat_of_zero_le (a := -t) (by omega)
    have hexact : (roundShift n t : ℝ) = n * 2 ^ (-t) := by
      rw [roundShift, if_pos ht, hk, Int.toNat_natCast, Nat.shiftLeft_eq, zpow_natCast]
      push_cast
      ring
    rw [← hexact]
    exact .natCast _
  · obtain ⟨k, rfl⟩ : ∃ k : ℕ, t = k + 1 := ⟨(t - 1).toNat, by omega⟩
    have hk : ((k : ℤ) + 1).toNat - 1 = k := by omega
    obtain ⟨c, hc⟩ : ∃ c, c = n / 2 ^ k := ⟨_, rfl⟩
    have hlow : (c : ℝ) ≤ n / 2 ^ k := by
      rw [le_div_iff₀ (by positivity), hc]
      exact_mod_cast Nat.div_mul_le_self n (2 ^ k)
    have hhigh : (n : ℝ) / 2 ^ k < c + 1 := by
      rw [div_lt_iff₀ (by positivity), hc]
      exact_mod_cast Nat.lt_mul_of_div_lt (Nat.lt_succ_self _) (by positivity)
    have hval : (n : ℝ) * 2 ^ (-((k : ℤ) + 1)) = n / 2 ^ k / 2 := by
      rw [zpow_neg, zpow_add_one₀ two_ne_zero, zpow_natCast, ← div_eq_mul_inv, div_div]
    have hhalf : (c : ℝ) = 2 * (c / 2 : ℕ) + (c % 2 : ℕ) := by
      exact_mod_cast (Nat.div_add_mod c 2).symm
    have hexact : c <<< k = n ↔ (n : ℝ) / 2 ^ k = c := by
      rw [div_eq_iff (by positivity), Nat.shiftLeft_eq, eq_comm]
      exact_mod_cast Iff.rfl
    rw [roundShift, if_neg ht, hk, Nat.shiftRight_eq_div_pow, ← hc, hval]
    dsimp only
    obtain heven | hodd := Nat.mod_two_eq_zero_or_one c
    · rw [if_pos heven]
      rw [heven, Nat.cast_zero] at hhalf
      exact .of_lt (abs_lt.mpr ⟨by linarith, by linarith⟩)
    · rw [if_neg (by omega)]
      rw [hodd, Nat.cast_one] at hhalf
      split_ifs with htie
      · obtain ⟨hfloor, hn⟩ := htie
        exact ⟨abs_le.mpr ⟨by linarith [hexact.mp hn], by linarith⟩,
          fun _ => Nat.even_iff.mpr hfloor⟩
      · refine ⟨?_, fun he => ?_⟩
        · rw [Nat.cast_add, Nat.cast_one]
          exact abs_le.mpr ⟨by linarith, by linarith⟩
        · -- halfway between two numbers, of which the lower one is odd
          rw [Nat.cast_add, Nat.cast_one, abs_of_pos (by linarith)] at he
          have hn : c <<< k = n := hexact.mpr (by linarith)
          have hfloor : c / 2 % 2 ≠ 0 := fun hfloor => htie ⟨hfloor, hn⟩
          exact Nat.even_iff.mpr (by omega)

def signOf (negative : Bool) : Sign := if negative then .negative else .positive

theorem signOf_eq_negative (s : Bool) : (signOf s == .negative) = s := by cases s <;> rfl

theorem signOf_negative_eq (t : Sign) : signOf (t == .negative) = t := by cases t <;> rfl

theorem reading_ofBits {n : ℕ} (hn : n ≤ single.infinityBits) (s : Bool) :
    reading (.ofBits (if s then 0x80000000 + .ofNat n else .ofNat n)) =
      (Value.ofUnpacked (ofFields (signOf s) (n / 2 ^ 23) (n % 2 ^ 23))).reading := by
  have hn : n ≤ 255 * 2 ^ 23 := hn
  have hbits (b : UInt32) : reading (.ofBits b) =
      (Value.ofUnpacked (unpack Format.binary32 b.toBitVec)).reading := by
    rw [reading_eq]
    exact congrArg (fun f => (Value.ofUnpacked f).reading)
      (unpack_toModel_pack (isCanonical_unpack _))
  obtain ⟨b, hb⟩ : ∃ b : UInt32, b = if s then 0x80000000 + .ofNat n else .ofNat n := ⟨_, rfl⟩
  have hnat : b.toNat = (if s then 2 ^ 31 else 0) + n := by
    have hofNat : (UInt32.ofNat n).toNat = n :=
    UInt32.toNat_ofNat_of_lt' (by rw [UInt32.size]; omega)
    have hbit : (0x80000000 : UInt32).toNat = 2 ^ 31 := rfl
    cases s with
    | false => simp [hb, hofNat]
    | true =>
      rw [hb, if_pos rfl, if_pos rfl, UInt32.toNat_add, hofNat, hbit]
      omega
  have hsign : Sign.ofBitVec (@unpackSign Format.binary32 b.toBitVec) = signOf s := by
    have h := toNat_unpackSign b.toBitVec
    rw [UInt32.toNat_toBitVec, hnat] at h
    cases s with
    | false =>
      have hzero : @unpackSign Format.binary32 b.toBitVec = 0#1 :=
        BitVec.eq_of_toNat_eq (h.trans (by simp; omega))
      rw [hzero]
      rfl
    | true =>
      have hone : @unpackSign Format.binary32 b.toBitVec = 1#1 :=
        BitVec.eq_of_toNat_eq (h.trans (by simp; omega))
      rw [hone]
      rfl
  have hfields : b.toNat / 2 ^ 23 % 2 ^ 8 = n / 2 ^ 23 ∧ b.toNat % 2 ^ 23 = n % 2 ^ 23 := by
    rw [hnat]
    split_ifs <;> omega
  rw [← hb, hbits, unpack_eq_ofFields, hsign, UInt32.toNat_toBitVec, hfields.1, hfields.2]

theorem reading_ofFields {x f : ℕ} (hx : x ≠ 255) (s : Sign) :
    (Value.ofUnpacked (ofFields s x f)).reading =
      if x = 0 then .number (s == .negative) (f * 2 ^ (-149 : ℤ))
      else .number (s == .negative) ((f + 2 ^ 23 : ℕ) * 2 ^ ((x : ℤ) - 150)) := by
  rw [ofFields, if_neg hx]
  split_ifs with hz hf
  · simp [Value.ofUnpacked, Value.reading, hf]
  · rfl
  · rfl

/-- Counting steps of the grid from zero carries from the mantissa into the exponent. -/
theorem reading_count {n u : ℕ} (hn : n ≤ 2 ^ 24) (hfull : 2 ^ 23 ≤ n ∨ u = 0) (s : Sign)
    (hlt : u * 2 ^ 23 + n < 255 * 2 ^ 23) :
    (Value.ofUnpacked
        (ofFields s ((u * 2 ^ 23 + n) / 2 ^ 23) ((u * 2 ^ 23 + n) % 2 ^ 23))).reading =
      .number (s == .negative) (n * 2 ^ ((u : ℤ) - 149)) := by
  rw [reading_ofFields (by omega)]
  by_cases hsub : n < 2 ^ 23
  · obtain rfl := hfull.resolve_left (by omega)
    have hx : (0 * 2 ^ 23 + n) / 2 ^ 23 = 0 := by omega
    have hf : (0 * 2 ^ 23 + n) % 2 ^ 23 = n := by omega
    rw [if_pos hx, hf]
    simp
  · rw [if_neg (by omega)]
    by_cases hcarry : n = 2 ^ 24
    · have hx : (u * 2 ^ 23 + n) / 2 ^ 23 = u + 2 := by omega
      have hf : (u * 2 ^ 23 + n) % 2 ^ 23 + 2 ^ 23 = 2 ^ 23 := by omega
      have he : ((u + 2 : ℕ) : ℤ) - 150 = (u - 149) + 1 := by push_cast; ring
      rw [hx, hf, hcarry, he, zpow_add_one₀ two_ne_zero]
      congr 1
      push_cast
      ring
    · have hx : (u * 2 ^ 23 + n) / 2 ^ 23 = u + 1 := by omega
      have hf : (u * 2 ^ 23 + n) % 2 ^ 23 + 2 ^ 23 = n := by omega
      have he : ((u + 1 : ℕ) : ℤ) - 150 = u - 149 := by push_cast; ring
      rw [hx, hf, he]

theorem overflow_of_count {n u : ℕ} (hn : n ≤ 2 ^ 24) (hfull : 2 ^ 23 ≤ n ∨ u = 0)
    (hle : 255 * 2 ^ 23 ≤ u * 2 ^ 23 + n) : (2 : ℝ) ^ (128 : ℤ) ≤ n * 2 ^ ((u : ℤ) - 149) := by
  by_cases hu : 254 ≤ u
  · have hn' : (2 : ℝ) ^ (23 : ℤ) ≤ n := by exact_mod_cast hfull.resolve_right (by omega)
    calc (2 : ℝ) ^ (128 : ℤ) ≤ 2 ^ (23 + ((u : ℤ) - 149)) :=
          zpow_le_zpow_right₀ one_le_two (by omega)
      _ = 2 ^ (23 : ℤ) * 2 ^ ((u : ℤ) - 149) := zpow_add₀ two_ne_zero _ _
      _ ≤ n * 2 ^ ((u : ℤ) - 149) := by gcongr
  · obtain rfl : u = 253 := by omega
    obtain rfl : n = 2 ^ 24 := by omega
    norm_num

theorem reading_toSingle_nan : reading (Value.toSingle .nan) = .nan := by
  rw [reading_eq]
  exact congrArg (fun f => (Value.ofUnpacked f).reading)
    (unpack_toModel_pack (isCanonical_unpack _))

theorem reading_toSingle_infinite (s : Bool) :
    reading (Value.toSingle (.infinite s)) = .infinite s := by
  have hr : reading (Value.toSingle (.infinite s)) = _ := reading_ofBits (le_refl _) s
  rw [hr]
  cases s <;> rfl

theorem reading_toSingle_zero (s : Bool) (e : ℤ) :
    reading (Value.toSingle (.finite s 0 e)) = .number s 0 := by
  have hr : reading (Value.toSingle (.finite s 0 e)) = _ := reading_ofBits (Nat.zero_le _) s
  rw [reading_ofFields (by norm_num), if_pos (by norm_num), signOf_eq_negative] at hr
  simpa using hr

theorem nearest_of_zero (h : reading x = .number s 0) : Nearest x s 0 := by
  refine ⟨-149, 0, ⟨le_rfl, .inl rfl, by positivity⟩, ?_, ?_⟩
  · simpa using NearestEven.natCast 0
  · rw [h, Nat.cast_zero, zero_mul, if_pos (by positivity)]

theorem nearest_toSingle (s : Bool) (m : ℕ) (e : ℤ) :
    Nearest (Value.toSingle (.finite s m e)) s (m * 2 ^ e) := by
  by_cases hm : m = 0
  · subst hm
    rw [Nat.cast_zero, zero_mul]
    exact nearest_of_zero (reading_toSingle_zero s e)
  have ht : Step (max (m.log2 + e - 23) (-149)) (m * 2 ^ e) :=
    step_of_approximates (a := .exact) rfl (fun h => absurd h hm)
  obtain ⟨u, hu⟩ : ∃ u : ℕ, max (m.log2 + e - 23) (-149) = u - 149 :=
    ⟨(max (m.log2 + e - 23) (-149) + 149).toNat, by omega⟩
  rw [hu] at ht
  obtain ⟨n, hn⟩ : ∃ n, n = roundShift m ((u : ℤ) - 149 - e) := ⟨_, rfl⟩
  have hbits : nearestBits single m e = min (u * 2 ^ 23 + n) (255 * 2 ^ 23) := by
    have hfraction : (single.fractionBits : ℤ) = 23 := rfl
    have hleast : single.least = -149 := rfl
    have hhidden : single.hiddenBit = 2 ^ 23 := rfl
    have hinfinity : single.infinityBits = 255 * 2 ^ 23 := rfl
    have hcount : ((u : ℤ) - 149 - -149).toNat = u := by omega
    simp only [nearestBits, if_neg hm, hfraction, hleast, hhidden, hinfinity, add_comm e, hu,
      hcount, hn]
  have hnearest : NearestEven n (m * 2 ^ e / 2 ^ ((u : ℤ) - 149)) := by
    have hscale : (m : ℝ) * 2 ^ e / 2 ^ ((u : ℤ) - 149) = m * 2 ^ (-((u : ℤ) - 149 - e)) := by
      rw [mul_div_assoc, ← zpow_sub₀ two_ne_zero, neg_sub]
    rw [hscale, hn]
    exact nearestEven_roundShift _ _
  have hnear := hnearest.near_scaled
  have hle := le_of_near ht hnear
  have hfull : 2 ^ 23 ≤ n ∨ u = 0 := (full_of_near ht hnear).imp_right fun h => by omega
  have hr : reading (Value.toSingle (.finite s m e)) = _ :=
    reading_ofBits (n := nearestBits single m e) (by rw [hbits]; exact min_le_right _ _) s
  refine ⟨(u : ℤ) - 149, n, ht, hnearest, ?_⟩
  by_cases hlt : u * 2 ^ 23 + n < 255 * 2 ^ 23
  · rw [hbits, min_eq_left hlt.le, reading_count hle hfull _ hlt, signOf_eq_negative] at hr
    rw [hr, if_pos (grid_of_reading hr).lt_overflow]
  · have hinf : (Value.ofUnpacked (ofFields (signOf s) (255 * 2 ^ 23 / 2 ^ 23)
        (255 * 2 ^ 23 % 2 ^ 23))).reading = .infinite s := by
      cases s <;> rfl
    rw [hbits, min_eq_right (by omega), hinf] at hr
    rw [hr, if_neg (not_lt.mpr (overflow_of_count hle hfull (by omega)))]

theorem rounds_toSingle (s : Bool) (m : ℕ) (e : ℤ) :
    Rounds (Value.toSingle (.finite s m e)) s (m * 2 ^ e) :=
  (nearest_toSingle s m e).rounds

end VisibleDifference.Binary
