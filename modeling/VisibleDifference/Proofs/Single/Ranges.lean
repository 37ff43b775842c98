import VisibleDifference.Proofs.Single.Order
import VisibleDifference.Proofs.Single.Specials

/-!
# Ranges

Bounds on numbers that operations keep. The bounds are grid points: a result that is exactly at most
a grid point is at most that after rounding, and likewise from below. `UpTo` bounds a finite number
without a sign, `AtLeast` one that may be infinite, `Bounded` a size. None of the three is NaN.
-/

namespace VisibleDifference.Binary

namespace Value

/-- Whether a value has no sign and is at most `2 ^ k`, by evaluation. -/
def isUpTo (k : ℤ) : Value → Bool
  | finite false m e => decide (e ≤ k ∧ m ≤ 2 ^ (k - e).toNat)
  | _ => false

/-- Whether a value has no sign and is at least `2 ^ k`, by evaluation. -/
def isAtLeast (k : ℤ) : Value → Bool
  | finite false m e => decide (e ≤ k ∧ 2 ^ (k - e).toNat ≤ m)
  | _ => false

theorem two_zpow_eq {e k : ℤ} (h : e ≤ k) : (2 : ℝ) ^ k = (2 ^ (k - e).toNat : ℕ) * 2 ^ e := by
  have hk : k = (k - e).toNat + e := by omega
  rw [Nat.cast_pow, Nat.cast_ofNat, ← zpow_natCast, ← zpow_add₀ two_ne_zero, ← hk]

end Value

variable {x y z : Float32} {s : Bool} {a b c q : ℝ}

def UpTo (b : ℝ) (x : Float32) : Prop := ∃ q, reading x = .number false q ∧ q ≤ b

def AtLeast (b : ℝ) (x : Float32) : Prop :=
  reading x = .infinite false ∨ ∃ q, reading x = .number false q ∧ b ≤ q

def Bounded (b : ℝ) (x : Float32) : Prop := ∃ s q, reading x = .number s q ∧ q ≤ b

theorem UpTo.mono (h : UpTo a x) (hab : a ≤ b) : UpTo b x := by
  obtain ⟨q, hq, hle⟩ := h
  exact ⟨q, hq, hle.trans hab⟩

theorem AtLeast.mono (h : AtLeast b x) (hab : a ≤ b) : AtLeast a x :=
  h.imp_right fun ⟨q, hq, hle⟩ => ⟨q, hq, hab.trans hle⟩

theorem UpTo.atLeast (h : UpTo b x) : AtLeast 0 x := by
  obtain ⟨q, hq, -⟩ := h
  exact .inr ⟨q, hq, size_nonneg hq⟩

theorem UpTo.nonneg (h : UpTo b x) : 0 ≤ b := by
  obtain ⟨q, hq, hle⟩ := h
  exact (size_nonneg hq).trans hle

theorem AtLeast.le (h : AtLeast b x) (hx : reading x = .number s q) : b ≤ q := by
  obtain h | ⟨r, hr, hbr⟩ := h
  · rw [hx] at h
    cases h
  · rw [hx] at hr
    cases hr
    exact hbr

theorem UpTo.bounded (h : UpTo b x) : Bounded b x := by
  obtain ⟨q, hq, hle⟩ := h
  exact ⟨false, q, hq, hle⟩

theorem upTo_of_isUpTo {k : ℤ} (h : (Value.ofSingle x).isUpTo k = true) : UpTo (2 ^ k) x := by
  unfold Value.isUpTo at h
  split at h
  · next m e hv =>
    obtain ⟨he, hm⟩ := of_decide_eq_true h
    refine ⟨m * 2 ^ e, by rw [reading, hv]; rfl, ?_⟩
    rw [Value.two_zpow_eq he]
    gcongr
  · exact absurd h Bool.false_ne_true

theorem atLeast_of_isAtLeast {k : ℤ} (h : (Value.ofSingle x).isAtLeast k = true) :
    AtLeast (2 ^ k) x := by
  unfold Value.isAtLeast at h
  split at h
  · next m e hv =>
    obtain ⟨he, hm⟩ := of_decide_eq_true h
    refine .inr ⟨m * 2 ^ e, by rw [reading, hv]; rfl, ?_⟩
    rw [Value.two_zpow_eq he]
    gcongr
  · exact absurd h Bool.false_ne_true

theorem atLeast_one : AtLeast 1 1 := by
  simpa using atLeast_of_isAtLeast (x := 1) (k := 0) (by decide +kernel)

theorem upTo_one_of_isUpTo (h : (Value.ofSingle x).isUpTo 0 = true) : UpTo 1 x := by
  simpa using upTo_of_isUpTo h

namespace Rounds

theorem upTo (h : Rounds x false q) (hb : Grid b) (hq : q ≤ b) : UpTo b x := h.below hb hq

theorem atLeast (h : Rounds x false q) (hb : Grid b) (hq : b ≤ q) : AtLeast b x := h.above hb hq

theorem bounded (h : Rounds x s q) (hb : Grid b) (hq : q ≤ b) : Bounded b x := by
  obtain ⟨r, hr, hle⟩ := h.below hb hq
  exact ⟨s, r, hr, hle⟩

theorem nonneg (h : Rounds x false q) (hq : 0 ≤ q) : AtLeast 0 x := h.atLeast Grid.zero hq

end Rounds

theorem rounds_add_pos {p q : ℝ} (hx : reading x = .number false p)
    (hy : reading y = .number false q) : Rounds (x + y) false (p + q) := by
  have hp := size_nonneg hx
  have hq := size_nonneg hy
  have h := rounds_add hx hy
  rwa [signed_false, signed_false, abs_of_nonneg (by positivity), sumSign, Bool.and_false,
    decide_eq_false (not_lt.mpr (by positivity)), ite_self] at h

theorem rounds_mulAdd_pos {p q r : ℝ} (hx : reading x = .number false p)
    (hy : reading y = .number false q) (hz : reading z = .number false r) :
    Rounds (mulAdd x y z) false (p * q + r) := by
  have hp := size_nonneg hx
  have hq := size_nonneg hy
  have hr := size_nonneg hz
  have h := rounds_mulAdd hx hy hz
  rwa [bne_self_eq_false, signed_false, signed_false, abs_of_nonneg (by positivity), sumSign,
    Bool.and_false, decide_eq_false (not_lt.mpr (by positivity)), ite_self] at h

theorem upTo_add (hx : UpTo a x) (hy : UpTo b y) (hc : Grid c) (h : a + b ≤ c) :
    UpTo c (x + y) := by
  obtain ⟨p, hp, hpa⟩ := hx
  obtain ⟨q, hq, hqb⟩ := hy
  exact (rounds_add_pos hp hq).upTo hc (by linarith)

theorem upTo_mul (hx : UpTo a x) (hy : UpTo b y) (hc : Grid c) (h : a * b ≤ c) :
    UpTo c (x * y) := by
  have ha := hx.nonneg
  obtain ⟨p, hp, hpa⟩ := hx
  obtain ⟨q, hq, hqb⟩ := hy
  have hq' := size_nonneg hq
  have hpq : p * q ≤ a * b := by gcongr
  exact (rounds_mul hp hq).upTo hc (hpq.trans h)

theorem upTo_mulAdd {d : ℝ} (hx : UpTo a x) (hy : UpTo b y) (hz : UpTo d z) (hc : Grid c)
    (h : a * b + d ≤ c) : UpTo c (mulAdd x y z) := by
  have ha := hx.nonneg
  obtain ⟨p, hp, hpa⟩ := hx
  obtain ⟨q, hq, hqb⟩ := hy
  obtain ⟨r, hr, hrd⟩ := hz
  have hq' := size_nonneg hq
  have hpq : p * q ≤ a * b := by gcongr
  exact (rounds_mulAdd_pos hp hq hr).upTo hc (by linarith)

/-- A quotient by a number that is not too small; divided by an infinity it is zero. -/
theorem upTo_div (hx : UpTo a x) (hy : AtLeast b y) (hb : 0 < b) (hc : Grid c) (h : a ≤ c * b) :
    UpTo c (x / y) := by
  obtain ⟨p, hp, hpa⟩ := hx
  obtain hy | ⟨q, hq, hbq⟩ := hy
  · exact ⟨0, reading_div_infinite hp hy, hc.nonneg⟩
  · have hpos : 0 < q := hb.trans_le hbq
    refine (rounds_div hp hq hpos).upTo hc ?_
    rw [div_le_iff₀ hpos]
    calc p ≤ c * b := hpa.trans h
      _ ≤ c * q := mul_le_mul_of_nonneg_left hbq hc.nonneg

theorem upTo_sqrt (hx : UpTo a x) (hc : Grid c) (h : a ≤ c ^ 2) : UpTo c x.sqrt := by
  obtain ⟨p, hp, hpa⟩ := hx
  exact (rounds_sqrt hp).upTo hc (Real.sqrt_le_iff.mpr ⟨hc.nonneg, hpa.trans h⟩)

theorem atLeast_sqrt (hx : AtLeast a x) (hc : Grid c) (h : c ^ 2 ≤ a) : AtLeast c x.sqrt := by
  obtain hx | ⟨p, hp, hap⟩ := hx
  · exact .inl (reading_sqrt_infinite hx)
  · exact (rounds_sqrt hp).atLeast hc (Real.le_sqrt_of_sq_le (h.trans hap))

theorem atLeast_add (hx : AtLeast a x) (hy : AtLeast 0 y) (ha : Grid a) : AtLeast a (x + y) := by
  obtain hx | ⟨p, hp, hap⟩ := hx
  · obtain hy | ⟨q, hq, -⟩ := hy
    · exact .inl (reading_infinite_add_infinite hx hy)
    · exact .inl (reading_infinite_add hx hq)
  · obtain hy | ⟨q, hq, hq'⟩ := hy
    · rw [Binary.add_comm]
      exact .inl (reading_infinite_add hy hp)
    · exact (rounds_add_pos hp hq).atLeast ha (by linarith)

theorem nonneg_mul (hx : UpTo a x) (hy : UpTo b y) : AtLeast 0 (x * y) := by
  obtain ⟨p, hp, -⟩ := hx
  obtain ⟨q, hq, -⟩ := hy
  exact (rounds_mul hp hq).nonneg (mul_nonneg (size_nonneg hp) (size_nonneg hq))

/-- A product with an infinity is infinite if neither operand is zero. -/
theorem atLeast_mul (hx : AtLeast a x) (hy : AtLeast b y) (ha : 0 < a) (hb : 0 < b) (hc : Grid c)
    (h : c ≤ a * b) : AtLeast c (x * y) := by
  obtain hx | ⟨p, hp, hap⟩ := hx
  · obtain hy | ⟨q, hq, hbq⟩ := hy
    · exact .inl (reading_infinite_mul_infinite hx hy)
    · exact .inl (reading_infinite_mul hx hq (hb.trans_le hbq)).1
  · obtain hy | ⟨q, hq, hbq⟩ := hy
    · exact .inl (reading_infinite_mul hy hp (ha.trans_le hap)).2
    · have hpq : a * b ≤ p * q := mul_le_mul hap hbq hb.le (ha.le.trans hap)
      exact (rounds_mul hp hq).atLeast hc (h.trans hpq)

/-- A quotient by a number that is not too large; divided by a zero it is infinite. -/
theorem atLeast_div (hx : AtLeast a x) (ha : 0 < a) (hy : UpTo b y) (hc : Grid c)
    (h : c * b ≤ a) : AtLeast c (x / y) := by
  obtain ⟨q, hq, hqb⟩ := hy
  obtain hx | ⟨p, hp, hap⟩ := hx
  · exact .inl (reading_infinite_div hx hq)
  obtain rfl | hpos := (size_nonneg hq).eq_or_lt
  · exact .inl (reading_div_zero hp (ha.trans_le hap) hq)
  · refine (rounds_div hp hq hpos).atLeast hc ?_
    rw [le_div_iff₀ hpos]
    calc c * q ≤ c * b := mul_le_mul_of_nonneg_left hqb hc.nonneg
      _ ≤ p := h.trans hap

theorem nonneg_div (hx : AtLeast 0 x) (hy : AtLeast b y) (hb : 0 < b) (hfinite : UpTo c y) :
    AtLeast 0 (x / y) := by
  obtain ⟨q, hq, -⟩ := hfinite
  obtain hx | ⟨p, hp, hp'⟩ := hx
  · exact .inl (reading_infinite_div hx hq)
  · have hpos : 0 < q := hb.trans_le (hy.le hq)
    exact (rounds_div hp hq hpos).nonneg (div_nonneg hp' hpos.le)

theorem bounded_sub (hx : Bounded a x) (hy : Bounded b y) (hc : Grid c) (h : a + b ≤ c) :
    Bounded c (x - y) := by
  obtain ⟨s, p, hp, hpa⟩ := hx
  obtain ⟨t, q, hq, hqb⟩ := hy
  have hneg : reading (-y) = .number (!t) q := by rw [reading_neg, hq]; rfl
  rw [sub_eq_add_neg]
  refine (rounds_add hp hneg).bounded hc ?_
  calc |signed s p + signed (!t) q| ≤ |signed s p| + |signed (!t) q| := abs_add_le _ _
    _ = p + q := by rw [abs_signed s (size_nonneg hp), abs_signed _ (size_nonneg hq)]
    _ ≤ c := by linarith

theorem bounded_mul (hx : Bounded a x) (hy : Bounded b y) (hc : Grid c) (h : a * b ≤ c) :
    Bounded c (x * y) := by
  obtain ⟨s, p, hp, hpa⟩ := hx
  obtain ⟨t, q, hq, hqb⟩ := hy
  have hpq : p * q ≤ a * b :=
    mul_le_mul hpa hqb (size_nonneg hq) ((size_nonneg hp).trans hpa)
  exact (rounds_mul hp hq).bounded hc (hpq.trans h)

theorem upTo_abs (hx : Bounded a x) : UpTo a x.abs := by
  obtain ⟨s, q, hq, hqa⟩ := hx
  exact ⟨q, by rw [reading_abs, hq]; rfl, hqa⟩

/-- The distance of a number to itself. -/
theorem reading_sub_self (hx : reading x = .number s q) : reading (x - x) = .number false 0 := by
  have hneg : reading (-x) = .number (!s) q := by rw [reading_neg, hx]; rfl
  have hsum : signed s q + signed (!s) q = 0 := by cases s <;> simp
  have hsign : sumSign s (!s) 0 = false := by cases s <;> simp [sumSign]
  have h := rounds_add hx hneg
  rw [hsum, hsign, abs_zero] at h
  rw [sub_eq_add_neg]
  exact h.exact Grid.zero

theorem reading_zero_mul (hx : reading x = .number false 0) (hy : reading y = .number s q) :
    reading (x * y) = .number s 0 := by
  have h := rounds_mul hx hy
  rw [zero_mul, Bool.false_bne] at h
  exact h.exact Grid.zero

theorem reading_zero_mulAdd (hx : reading x = .number false 0) (hy : reading y = .number false q)
    (hz : reading z = .number false 0) : reading (mulAdd x y z) = .number false 0 := by
  have h := rounds_mulAdd_pos hx hy hz
  rw [zero_mul, zero_add] at h
  exact h.exact Grid.zero

end VisibleDifference.Binary
