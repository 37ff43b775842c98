import VisibleDifference.Proofs.Single.Comparisons

/-!
# Rounding keeps the order

Of two sizes the smaller one is not rounded to a larger number. Where both lie on one grid this is so
for their nearest multiples of its step, the parity deciding a tie for both alike; otherwise the least
mantissa of the coarser grid lies between them. With signs it carries over to sums and to products
with a positive number, and so to the comparison of results.
-/

namespace VisibleDifference.Binary

variable {x y z c : Float32} {s t u : Bool} {p q r : ℝ}

section Sizes

variable {m n : ℕ} {r' : ℝ}

theorem NearestEven.mono (hm : NearestEven m r) (hn : NearestEven n r') (h : r ≤ r') : m ≤ n := by
  by_contra! hlt
  have hlt' : (n : ℝ) + 1 ≤ m := by exact_mod_cast hlt
  have hlow := (abs_le.mp hm.near).2
  have hhigh := (abs_le.mp hn.near).1
  -- both are halfway between `n` and `n + 1`
  have hmn : (m : ℝ) = n + 1 := by linarith
  have hm' : Even m := hm.even_of_tie (by rw [abs_of_nonneg (by linarith)]; linarith)
  have hn' : Even n := hn.even_of_tie (by rw [abs_of_nonpos (by linarith)]; linarith)
  have hsucc : m = n + 1 := by exact_mod_cast hmn
  rw [Nat.even_iff] at hm' hn'
  omega

theorem Step.mono {t t' : ℤ} (hp : Step t p) (hq : Step t' q) (h : p ≤ q) : t ≤ t' := by
  obtain ht | ht := hp.full
  · exact ht.trans_le hq.least
  · have hlt : (2 : ℝ) ^ (t + 23) < 2 ^ (t' + 24) := (ht.trans h).trans_lt hq.lt
    have := (zpow_lt_zpow_iff_right₀ one_lt_two).mp hlt
    omega

theorem rounded_mono {t t' : ℤ} (hp : Step t p) (hq : Step t' q) (hm : NearestEven m (p / 2 ^ t))
    (hn : NearestEven n (q / 2 ^ t')) (h : p ≤ q) : (m : ℝ) * 2 ^ t ≤ n * 2 ^ t' := by
  obtain rfl | hlt := (hp.mono hq h).eq_or_lt
  · have hmn : (m : ℝ) ≤ n := by exact_mod_cast hm.mono hn (by gcongr)
    gcongr
  · have hleast := hp.least
    have hm' : (m : ℝ) ≤ 2 ^ (24 : ℤ) := by exact_mod_cast le_of_near hp hm.near_scaled
    have hn' : (2 : ℝ) ^ (23 : ℤ) ≤ n := by
      exact_mod_cast (full_of_near hq hn.near_scaled).resolve_right (by omega)
    calc (m : ℝ) * 2 ^ t ≤ 2 ^ (24 : ℤ) * 2 ^ t := by gcongr
      _ = 2 ^ (24 + t) := (zpow_add₀ two_ne_zero _ _).symm
      _ ≤ 2 ^ (23 + t') := zpow_le_zpow_right₀ one_le_two (by omega)
      _ = 2 ^ (23 : ℤ) * 2 ^ t' := zpow_add₀ two_ne_zero _ _
      _ ≤ n * 2 ^ t' := by gcongr

/-- Sizes from a bound on are infinite. -/
noncomputable def cut (b q : ℝ) : EReal := if q < b then (q : EReal) else ⊤

theorem cut_nonneg (b : ℝ) (hq : 0 ≤ q) : 0 ≤ cut b q := by
  unfold cut
  split_ifs
  · exact_mod_cast hq
  · exact le_top

theorem cut_mono (b : ℝ) (h : p ≤ q) : cut b p ≤ cut b q := by
  unfold cut
  split_ifs with hp hq hq
  · exact_mod_cast h
  · exact le_top
  · exact absurd (h.trans_lt hq) hp
  · exact le_rfl

end Sizes

/-- What a result is as an extended real. -/
theorem Nearest.extended (h : Nearest x s q) : ∃ (t : ℤ) (n : ℕ), Step t q ∧
    NearestEven n (q / 2 ^ t) ∧
      (reading x).extended = some (if s then -cut (2 ^ (128 : ℤ)) (n * 2 ^ t) else cut (2 ^ (128 : ℤ)) (n * 2 ^ t)) := by
  obtain ⟨t, n, ht, hn, hx⟩ := h
  refine ⟨t, n, ht, hn, ?_⟩
  rw [hx, cut]
  split_ifs with hlt hs
  · rw [Reading.extended, hs, signed_true, EReal.coe_neg]
  · rw [Reading.extended, Bool.eq_false_iff.mpr hs, signed_false]
  · rw [Reading.extended, ‹s = true›, EReal.neg_top]
    rfl
  · rw [Reading.extended, Bool.eq_false_iff.mpr ‹¬s = true›]
    rfl

/-- Results compare as what they are rounded from. -/
theorem le_of_nearest (hx : Nearest x s p) (hy : Nearest y t q) (hp : 0 ≤ p) (hq : 0 ≤ q)
    (h : signed s p ≤ signed t q) : x ≤ y := by
  obtain ⟨i, m, hi, hm, hx⟩ := hx.extended
  obtain ⟨j, n, hj, hn, hy⟩ := hy.extended
  refine le_iff.mpr ⟨_, _, hx, hy, ?_⟩
  have hm' : 0 ≤ cut (2 ^ (128 : ℤ)) (m * 2 ^ i) := cut_nonneg _ (by positivity)
  have hn' : 0 ≤ cut (2 ^ (128 : ℤ)) (n * 2 ^ j) := cut_nonneg _ (by positivity)
  cases s with
  | false =>
    cases t with
    | false => exact cut_mono _ (rounded_mono hi hj hm hn h)
    | true =>
      -- both are zero
      rw [signed_false, signed_true] at h
      obtain rfl : p = 0 := by linarith
      obtain rfl : q = 0 := by linarith
      rw [zero_div] at hm hn
      obtain rfl : m = 0 := le_antisymm (hm.mono (.natCast 0) (by simp)) (Nat.zero_le m)
      obtain rfl : n = 0 := le_antisymm (hn.mono (.natCast 0) (by simp)) (Nat.zero_le n)
      simp [cut]
  | true =>
    cases t with
    | false =>
      have hneg : -cut (2 ^ (128 : ℤ)) (m * 2 ^ i) ≤ 0 := by simpa using EReal.neg_le_neg_iff.mpr hm'
      exact hneg.trans hn'
    | true =>
      rw [signed_true, signed_true, neg_le_neg_iff] at h
      exact EReal.neg_le_neg_iff.mpr (cut_mono _ (rounded_mono hj hi hn hm h))

section Numbers

theorem le_iff_signed (hx : reading x = .number s p) (hy : reading y = .number t q) :
    x ≤ y ↔ signed s p ≤ signed t q := by
  rw [le_iff, hx, hy]
  constructor
  · rintro ⟨a, b, ha, hb, hab⟩
    cases ha
    cases hb
    exact_mod_cast hab
  · exact fun h => ⟨_, _, rfl, rfl, by exact_mod_cast h⟩

theorem not_nan_of_le (h : x ≤ y) : reading x ≠ .nan ∧ reading y ≠ .nan := by
  obtain ⟨a, b, ha, hb, -⟩ := le_iff.mp h
  constructor
  · intro hx
    rw [hx] at ha
    cases ha
  · intro hy
    rw [hy] at hb
    cases hb

theorem le_of_infinite (hx : reading x ≠ .nan) (hy : reading y = .infinite false) : x ≤ y := by
  obtain ⟨a, ha⟩ := exists_extended hx
  exact le_iff.mpr ⟨a, ⊤, ha, by rw [hy]; rfl, le_top⟩

theorem infinite_le (hx : reading x = .infinite true) (hy : reading y ≠ .nan) : x ≤ y := by
  obtain ⟨b, hb⟩ := exists_extended hy
  exact le_iff.mpr ⟨⊥, b, by rw [hx]; rfl, hb, bot_le⟩

theorem infinite_of_le (hx : reading x = .infinite false) (h : x ≤ y) :
    reading y = .infinite false := by
  obtain ⟨a, b, ha, hb, hab⟩ := le_iff.mp h
  rw [hx] at ha
  cases ha
  obtain hy | ⟨q, -, rfl⟩ := form_of_extended_pos hb (EReal.zero_lt_top.trans_le hab)
  · exact hy
  · exact absurd (EReal.coe_lt_top q) (not_lt.mpr hab)

/-- What is not below a number is a number, too, or infinite. -/
theorem infinite_or_number_of_le (hx : reading x = .number s p) (h : x ≤ y) :
    reading y = .infinite false ∨
      ∃ t q, reading y = .number t q ∧ signed s p ≤ signed t q := by
  cases hy : reading y with
  | nan =>
    obtain ⟨-, b, -, hb, -⟩ := le_iff.mp h
    rw [hy] at hb
    cases hb
  | infinite t =>
    cases t with
    | false => exact .inl rfl
    | true =>
      obtain ⟨a, b, ha, hb, hab⟩ := le_iff.mp h
      rw [hx] at ha
      rw [hy] at hb
      cases ha
      cases hb
      exact absurd (EReal.bot_lt_coe _) (not_lt.mpr hab)
  | number t q => exact .inr ⟨t, q, rfl, (le_iff_signed hx hy).mp h⟩

theorem Nearest.not_nan (h : Nearest x s q) : reading x ≠ .nan := by
  obtain ⟨t, n, -, -, hx⟩ := h
  rw [hx]
  split_ifs <;> exact fun h => nomatch h

theorem signed_sumSign (s t : Bool) (q : ℝ) : signed (sumSign s t q) |q| = q := by
  unfold sumSign
  split_ifs with hq
  · rw [hq, abs_zero]
    cases s && t <;> simp
  · by_cases hneg : q < 0
    · rw [decide_eq_true hneg, signed_true, abs_of_neg hneg, neg_neg]
    · rw [decide_eq_false hneg, signed_false, abs_of_nonneg (not_lt.mp hneg)]

end Numbers

/-- A function that takes infinities to themselves and keeps the order of numbers keeps all order. -/
theorem le_of_numbers {f : Float32 → Float32}
    (hf : ∀ {x s}, reading x = .infinite s → reading (f x) = .infinite s)
    (hf' : ∀ {x s p}, reading x = .number s p → reading (f x) ≠ .nan)
    (hle : ∀ {x y s t p q}, reading x = .number s p → reading y = .number t q →
      signed s p ≤ signed t q → f x ≤ f y)
    (h : x ≤ y) : f x ≤ f y := by
  obtain ⟨hx, hy⟩ := not_nan_of_le h
  have hy' : reading (f y) ≠ .nan := by
    cases hy' : reading y with
    | nan => exact absurd hy' hy
    | infinite t => rw [hf hy']; exact fun h => nomatch h
    | number t q => exact hf' hy'
  cases hx' : reading x with
  | nan => exact absurd hx' hx
  | infinite s =>
    cases s with
    | true => exact infinite_le (hf hx') hy'
    | false =>
      have hinf := hf (infinite_of_le hx' h)
      exact le_of_infinite (by rw [hf hx']; exact fun h => nomatch h) hinf
  | number s p =>
    obtain hinf | ⟨t, q, hq, hpq⟩ := infinite_or_number_of_le hx' h
    · exact le_of_infinite (hf' hx') (hf hinf)
    · exact hle hx' hq hpq

section Operations

variable (hc : reading c = .number u r)

include hc

theorem add_mono (h : x ≤ y) : x + c ≤ y + c := by
  refine le_of_numbers (f := (· + c)) (fun hx => reading_infinite_add hx hc)
    (fun hx => (nearest_add hx hc).not_nan) (fun hx hy hpq => ?_) h
  refine le_of_nearest (nearest_add hx hc) (nearest_add hy hc) (abs_nonneg _) (abs_nonneg _) ?_
  rw [signed_sumSign, signed_sumSign]
  linarith

theorem sub_mono (h : x ≤ y) : x - c ≤ y - c := by
  have hneg : reading (-c) = .number (!u) r := by rw [reading_neg, hc]; rfl
  rw [sub_eq_add_neg, sub_eq_add_neg]
  exact add_mono hneg h

theorem mulAdd_mono (hz : reading z = .number false p) (hpos : 0 < p) (h : x ≤ y) :
    mulAdd z x c ≤ mulAdd z y c := by
  refine le_of_numbers (f := (mulAdd z · c)) (fun hx => reading_mulAdd_infinite_number hz hpos hx hc)
    (fun hx => (nearest_mulAdd hz hx hc).not_nan) (fun hx hy hpq => ?_) h
  refine le_of_nearest (nearest_mulAdd hz hx hc) (nearest_mulAdd hz hy hc) (abs_nonneg _)
    (abs_nonneg _) ?_
  rw [signed_sumSign, signed_sumSign, Bool.false_bne, Bool.false_bne, mul_comm p, mul_comm p,
    signed_mul, signed_mul]
  have := mul_le_mul_of_nonneg_right hpq hpos.le
  linarith

end Operations

end VisibleDifference.Binary
