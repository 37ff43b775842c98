import VisibleDifference.Proofs.Single.Ranges

/-!
# Ranges and comparisons

Bounds that follow from comparisons, and bounds of what is chosen by one. A NaN gives way to the
other operand of the larger and the smaller; all else that compares is read as an extended real.
What is unsigned, NaN or without a sign, is never below zero.
-/

namespace VisibleDifference.Binary

variable {x y z : Float32} {s t u : Bool} {a b c p q : ℝ}

theorem reading_zero : reading 0 = .number false 0 := by
  have hv : Value.ofSingle 0 = .finite false 0 (-149) := by decide +kernel
  rw [reading, hv]
  simp [Value.reading]

theorem extended_of_zero (hx : reading x = .number s 0) : (reading x).extended = some 0 := by
  rw [hx]
  cases s <;> simp [Reading.extended]

theorem AtLeast.extended (h : AtLeast a x) :
    ∃ e, (reading x).extended = some e ∧ (a : EReal) ≤ e := by
  obtain h | ⟨q, h, haq⟩ := h
  · exact ⟨⊤, by rw [h]; rfl, le_top⟩
  · exact ⟨(q : ℝ), by rw [h]; rfl, by exact_mod_cast haq⟩

/-- An extended real above zero is that of a number without a sign. -/
theorem form_of_extended_pos {e : EReal} (he : (reading x).extended = some e) (hpos : 0 < e) :
    reading x = .infinite false ∨ ∃ q : ℝ, reading x = .number false q ∧ e = q := by
  cases hx : reading x with
  | nan => rw [hx] at he; cases he
  | infinite s =>
    rw [hx] at he
    cases he
    cases s with
    | false => exact .inl rfl
    | true => exact absurd hpos not_lt_bot
  | number s q =>
    rw [hx] at he
    cases he
    cases s with
    | false => exact .inr ⟨q, rfl, rfl⟩
    | true =>
      have hneg : (0 : ℝ) < -q := by exact_mod_cast hpos
      linarith [size_nonneg hx]

theorem AtLeast.not_nan (h : AtLeast a x) : ¬x.isNaN = true := by
  rw [isNaN_iff_reading]
  obtain h | ⟨q, h, -⟩ := h <;> rw [h] <;> exact fun h => nomatch h

section Chosen

/-- What is not above a finite number is finite. -/
theorem upTo_of_not_lt (hx : AtLeast 0 x) (hy : UpTo b y) (h : ¬y < x) : UpTo b x := by
  obtain ⟨q, hq, hqb⟩ := hy
  have hy' : (reading y).extended = some (q : ℝ) := by rw [hq]; rfl
  obtain hx | ⟨p, hp, -⟩ := hx
  · have hx' : (reading x).extended = some ⊤ := by rw [hx]; rfl
    exact absurd (lt_iff.mpr ⟨_, _, hy', hx', EReal.coe_lt_top q⟩) h
  · have hx' : (reading x).extended = some (p : ℝ) := by rw [hp]; rfl
    have hpq : ¬((q : ℝ) : EReal) < (p : ℝ) := fun hlt => h (lt_iff.mpr ⟨_, _, hy', hx', hlt⟩)
    rw [EReal.coe_lt_coe_iff, not_lt] at hpq
    exact ⟨p, hp, hpq.trans hqb⟩

theorem upTo_of_le (hx : AtLeast 0 x) (h : x ≤ y) (hy : UpTo b y) : UpTo b x :=
  upTo_of_not_lt hx hy (not_lt_of_le h)

/-- What is not below a positive number is itself positive. -/
theorem atLeast_of_not_lt (hn : ¬x.isNaN = true) (hy : AtLeast a y) (ha : 0 < a) (h : ¬x < y) :
    AtLeast a x := by
  rw [isNaN_iff_reading] at hn
  obtain ⟨e, he⟩ := exists_extended hn
  obtain ⟨f, hf, haf⟩ := hy.extended
  have hle : f ≤ e := not_lt.mp fun hlt => h (lt_iff.mpr ⟨e, f, he, hf, hlt⟩)
  have hae : (a : EReal) ≤ e := haf.trans hle
  have hpos : (0 : EReal) < e := lt_of_lt_of_le (by exact_mod_cast ha) hae
  obtain hx | ⟨q, hq, rfl⟩ := form_of_extended_pos he hpos
  · exact .inl hx
  · exact .inr ⟨q, hq, by exact_mod_cast hae⟩

theorem upTo_larger (hx : UpTo a x) (hy : UpTo a y) : UpTo a (larger x y) := by
  unfold larger
  split_ifs <;> assumption

/-- The larger of anything and a positive number, also of NaN and a positive number. -/
theorem atLeast_larger (x : Float32) (hy : AtLeast a y) (ha : 0 < a) : AtLeast a (larger x y) := by
  unfold larger
  split_ifs with hx hy' hlt
  · exact hy
  · exact absurd hy' hy.not_nan
  · exact hy
  · exact atLeast_of_not_lt hx hy ha hlt

theorem upTo_smaller (hx : AtLeast 0 x) (hy : UpTo b y) : UpTo b (smaller x y) := by
  unfold smaller
  split_ifs with hn hn' hlt
  · exact hy
  · exact absurd hn' hy.atLeast.not_nan
  · exact hy
  · exact upTo_of_not_lt hx hy hlt

theorem le_of_not_lt (hx : ¬x.isNaN = true) (hy : ¬y.isNaN = true) (h : ¬x < y) : y ≤ x := by
  rw [isNaN_iff_reading] at hx hy
  obtain ⟨a, ha⟩ := exists_extended hx
  obtain ⟨b, hb⟩ := exists_extended hy
  exact le_iff.mpr ⟨b, a, hb, ha, not_lt.mp fun hlt => h (lt_iff.mpr ⟨a, b, ha, hb, hlt⟩)⟩

/-- The larger of two is at least the second of them, whatever the first. -/
theorem le_larger (x : Float32) (hy : ¬y.isNaN = true) : y ≤ larger x y := by
  have hself : y ≤ y := le_refl_of_not_nan (isNaN_iff_reading.not.mp hy)
  unfold larger
  split_ifs with hx hlt
  · exact hself
  · exact hself
  · exact le_of_not_lt hx hy hlt

/-- The smaller of two is at most the second of them, whatever the first. -/
theorem smaller_le (x : Float32) (hy : ¬y.isNaN = true) : smaller x y ≤ y := by
  have hself : y ≤ y := le_refl_of_not_nan (isNaN_iff_reading.not.mp hy)
  unfold smaller
  split_ifs with hx hlt
  · exact hself
  · exact hself
  · exact le_of_not_lt hy hx hlt

theorem atLeast_smaller (hx : AtLeast a x) (hy : AtLeast a y) : AtLeast a (smaller x y) := by
  unfold smaller
  split_ifs <;> assumption

end Chosen

section Positive

/-- A number above zero has no sign. -/
theorem infinite_or_number_of_pos (h : 0 < x) :
    reading x = .infinite false ∨ ∃ q, reading x = .number false q ∧ 0 < q := by
  obtain ⟨a, e, ha, he, hlt⟩ := lt_iff.mp h
  obtain rfl : 0 = a := Option.some.inj ((extended_of_zero reading_zero).symm.trans ha)
  obtain hx | ⟨q, hq, rfl⟩ := form_of_extended_pos he hlt
  · exact .inl hx
  · exact .inr ⟨q, hq, by exact_mod_cast hlt⟩

theorem nonneg_of_pos (h : 0 < x) : AtLeast 0 x := by
  obtain hx | ⟨q, hq, hpos⟩ := infinite_or_number_of_pos h
  · exact .inl hx
  · exact .inr ⟨q, hq, hpos.le⟩

theorem upTo_of_isFinite (hf : x.isFinite = true) (h : 0 < x) : ∃ b, UpTo b x := by
  obtain hx | ⟨q, hq, -⟩ := infinite_or_number_of_pos h
  · have hf' : x.toModel.unpack.isFinite = true := hf
    rw [form_of_infinite hx] at hf'
    cases hf'
  · exact ⟨q, q, hq, le_rfl⟩

theorem Bounded.isFinite (h : Bounded b x) : x.isFinite = true := by
  obtain ⟨s, q, hq, -⟩ := h
  change x.toModel.unpack.isFinite = true
  obtain ⟨hu, -⟩ | ⟨m, e, hm, hu, -, -⟩ := form_of_number hq <;> rw [hu] <;> rfl

theorem UpTo.pos (hb : UpTo b x) (h : 0 < x) :
    ∃ q, reading x = .number false q ∧ 0 < q ∧ q ≤ b := by
  obtain ⟨q, hq, hqb⟩ := hb
  obtain hx | ⟨p, hp, hpos⟩ := infinite_or_number_of_pos h
  · rw [hq] at hx
    cases hx
  · rw [hq] at hp
    cases hp
    exact ⟨q, hq, hpos, hqb⟩

theorem nonneg_scale (hb : UpTo b x) (hx : 0 < x) (hy : AtLeast 0 y) : AtLeast 0 (x * y) := by
  obtain ⟨p, hp, hpos, -⟩ := hb.pos hx
  obtain hy | ⟨q, hq, -⟩ := hy
  · exact .inl (reading_infinite_mul hy hp hpos).2
  · exact nonneg_mul ⟨p, hp, le_rfl⟩ ⟨q, hq, le_rfl⟩

theorem mulAdd_eq_of_infinite (hx : reading x = .number false p) (hp : 0 < p)
    (hy : reading y = .infinite s) :
    mulAdd x y z = ((Value.infinite s).add (.ofSingle z)).toSingle := by
  obtain ⟨m, e, hm, rfl⟩ := form_of_reading hx
  have hproduct : (Value.ofSingle x).mul (.ofSingle y) = .infinite (false != s) := by
    rw [hm, ofSingle_infinite hy]
    exact if_neg (ne_zero_of_pos hp)
  rw [mulAdd, hproduct, Bool.false_bne]

theorem reading_mulAdd_infinite_number (hx : reading x = .number false p) (hp : 0 < p)
    (hy : reading y = .infinite s) (hz : reading z = .number u q) :
    reading (mulAdd x y z) = .infinite s := by
  obtain ⟨n, f, hn, -⟩ := form_of_reading hz
  rw [mulAdd_eq_of_infinite hx hp hy, hn]
  exact reading_toSingle_infinite s

theorem reading_mulAdd_infinite (hb : UpTo b x) (hx : 0 < x) (hy : reading y = .infinite false)
    (hz : AtLeast 0 z) : reading (mulAdd x y z) = .infinite false := by
  obtain ⟨p, hp, hpos, -⟩ := hb.pos hx
  obtain hz | ⟨r, hr, -⟩ := hz
  · rw [mulAdd_eq_of_infinite hp hpos hy, ofSingle_infinite hz]
    exact reading_toSingle_infinite false
  · exact reading_mulAdd_infinite_number hp hpos hy hr

theorem reading_mulAdd_of_infinite (hx : reading x = .number s p) (hy : reading y = .number t q)
    (hz : reading z = .infinite u) : reading (mulAdd x y z) = .infinite u := by
  obtain ⟨m, e, hm, -⟩ := form_of_reading hx
  obtain ⟨n, f, hn, -⟩ := form_of_reading hy
  rw [mulAdd, hm, hn, ofSingle_infinite hz]
  exact reading_toSingle_infinite u

/-- A positive weight leaves an infinity infinite, and no two infinities work against each other. -/
theorem nonneg_mulAdd (hb : UpTo b x) (hx : 0 < x) (hy : AtLeast 0 y) (hz : AtLeast 0 z) :
    AtLeast 0 (mulAdd x y z) := by
  obtain hy | ⟨q, hq, hq'⟩ := hy
  · exact .inl (reading_mulAdd_infinite hb hx hy hz)
  obtain ⟨p, hp, hp', -⟩ := hb.pos hx
  obtain hz | ⟨r, hr, hr'⟩ := hz
  · exact .inl (reading_mulAdd_of_infinite hp hq hz)
  · exact (rounds_mulAdd_pos hp hq hr).nonneg (by positivity)

/-- What is not below zero has no sign, or is a zero. -/
theorem zero_le_iff : 0 ≤ x ↔ AtLeast 0 x ∨ reading x = .number true 0 := by
  constructor
  · intro h
    obtain ⟨a, e, ha, he, hle⟩ := le_iff.mp h
    obtain rfl : 0 = a := Option.some.inj ((extended_of_zero reading_zero).symm.trans ha)
    cases hx : reading x with
    | nan => rw [hx] at he; cases he
    | infinite s =>
      rw [hx] at he
      cases he
      cases s with
      | false => exact .inl (.inl hx)
      | true => exact absurd hle (not_le.mpr EReal.bot_lt_zero)
    | number s q =>
      rw [hx] at he
      cases he
      have hq := size_nonneg hx
      cases s with
      | false => exact .inl (.inr ⟨q, hx, hq⟩)
      | true =>
        have hneg : (0 : ℝ) ≤ -q := by exact_mod_cast hle
        obtain rfl : q = 0 := by linarith
        exact .inr rfl
  · rintro (h | h)
    · obtain ⟨e, he, hpos⟩ := h.extended
      exact le_iff.mpr ⟨0, e, extended_of_zero reading_zero, he, by exact_mod_cast hpos⟩
    · exact le_iff.mpr ⟨0, 0, extended_of_zero reading_zero, extended_of_zero h, le_rfl⟩

theorem isFinite_iff : x.isFinite = true ↔ ∃ s q, reading x = .number s q := by
  constructor
  · intro h
    have h : x.toModel.unpack.isFinite = true := h
    cases hx : reading x with
    | nan => rw [form_of_nan hx] at h; cases h
    | infinite s => rw [form_of_infinite hx] at h; cases h
    | number s q => exact ⟨s, q, rfl⟩
  · rintro ⟨s, q, hq⟩
    exact Bounded.isFinite ⟨s, q, hq, le_rfl⟩

theorem isFinite_eq_false (h : ∀ s q, reading x ≠ .number s q) : x.isFinite = false := by
  rw [Bool.eq_false_iff, Ne, isFinite_iff]
  exact fun ⟨s, q, hq⟩ => h s q hq

theorem zero_le_of_zero (h : reading x = .number s 0) : 0 ≤ x := by
  cases s with
  | false => exact zero_le_iff.mpr (.inl (.inr ⟨0, h, le_rfl⟩))
  | true => exact zero_le_iff.mpr (.inr h)

theorem zero_le_scale (hb : UpTo b x) (hx : 0 < x) (hy : 0 ≤ y) : 0 ≤ x * y := by
  obtain hy | hy := zero_le_iff.mp hy
  · exact zero_le_iff.mpr (.inl (nonneg_scale hb hx hy))
  · obtain ⟨p, hp, -⟩ := hb
    have h := rounds_mul hp hy
    rw [mul_zero] at h
    exact zero_le_of_zero (h.exact Grid.zero)

/-- Products of finite numbers are infinite at the worst. -/
theorem zero_le_mul (hx : 0 ≤ x) (hx' : x.isFinite = true) (hy : 0 ≤ y)
    (hy' : y.isFinite = true) : 0 ≤ x * y := by
  obtain ⟨s, p, hp⟩ := isFinite_iff.mp hx'
  obtain ⟨t, q, hq⟩ := isFinite_iff.mp hy'
  have h := rounds_mul hp hq
  obtain hx | hx := zero_le_iff.mp hx
  · obtain hy | hy := zero_le_iff.mp hy
    · refine zero_le_iff.mpr (.inl ?_)
      obtain hx | ⟨p', hp', -⟩ := hx
      · rw [hp] at hx
        cases hx
      obtain hy | ⟨q', hq', -⟩ := hy
      · rw [hq] at hy
        cases hy
      exact nonneg_mul ⟨p', hp', le_rfl⟩ ⟨q', hq', le_rfl⟩
    · rw [hq] at hy
      cases hy
      rw [mul_zero] at h
      exact zero_le_of_zero (h.exact Grid.zero)
  · rw [hp] at hx
    cases hx
    rw [zero_mul] at h
    exact zero_le_of_zero (h.exact Grid.zero)

end Positive

/-- NaN, or without a sign. -/
def Unsigned (x : Float32) : Prop := reading x = .nan ∨ AtLeast 0 x

/-- An infinity times a zero is NaN, all other products have no sign. -/
theorem unsigned_mul (hx : Unsigned x) (hy : Unsigned y) : Unsigned (x * y) := by
  obtain hx | hx := hx
  · exact .inl (nan_mul hx y)
  obtain hy | hy := hy
  · exact .inl (mul_nan hy x)
  obtain hx | ⟨p, hp, hp'⟩ := hx
  · obtain hy | ⟨q, hq, hq'⟩ := hy
    · exact .inr (.inl (reading_infinite_mul_infinite hx hy))
    · obtain rfl | hpos := hq'.eq_or_lt
      · exact .inl (reading_infinite_mul_zero hx hq).1
      · exact .inr (.inl (reading_infinite_mul hx hq hpos).1)
  · obtain hy | ⟨q, hq, hq'⟩ := hy
    · obtain rfl | hpos := hp'.eq_or_lt
      · exact .inl (reading_infinite_mul_zero hy hp).2
      · exact .inr (.inl (reading_infinite_mul hy hp hpos).2)
    · exact .inr (nonneg_mul ⟨p, hp, le_rfl⟩ ⟨q, hq, le_rfl⟩)

theorem zero_le_of_atLeast (hx : AtLeast 0 x) (hy : reading y = .number s 0) : y ≤ x := by
  obtain ⟨e, he, hpos⟩ := hx.extended
  exact le_iff.mpr ⟨0, e, extended_of_zero hy, he, by exact_mod_cast hpos⟩

theorem not_lt_of_unsigned (hx : Unsigned x) (hy : reading y = .nan ∨ reading y = .number s 0) :
    ¬x < y := by
  obtain hx | hx := hx
  · exact not_lt_of_nan (.inl hx)
  obtain hy | hy := hy
  · exact not_lt_of_nan (.inr hy)
  exact not_lt_of_le (zero_le_of_atLeast hx hy)

end VisibleDifference.Binary
