import VisibleDifference.Proofs.Single.Operations

/-!
# Order

Numbers are ordered as the extended reals they stand for; the two zeros are equal, and NaN is
comparable with nothing.
-/

namespace VisibleDifference.Binary

open Float.Model (Format UnpackedFloat)
open Float.Model.UnpackedFloat

variable {x y : Float32} {s t : Bool} {p q : ℝ}

theorem lt_of_exponent_lt {m n : ℕ} {e f : ℤ} (hm : Canonical m e) (hn : Canonical n f)
    (h : e < f) : (m : ℝ) * 2 ^ e < n * 2 ^ f := by
  have hm' : (m : ℝ) < 2 ^ (24 : ℤ) := by exact_mod_cast hm.lt
  have hleast := hm.least
  have hn' : (2 : ℝ) ^ (23 : ℤ) ≤ n := by exact_mod_cast hn.full.resolve_right (by omega)
  calc (m : ℝ) * 2 ^ e < 2 ^ (24 : ℤ) * 2 ^ e := by gcongr
    _ = 2 ^ (24 + e) := (zpow_add₀ two_ne_zero _ _).symm
    _ ≤ 2 ^ (23 + f) := zpow_le_zpow_right₀ one_le_two (by omega)
    _ = 2 ^ (23 : ℤ) * 2 ^ f := zpow_add₀ two_ne_zero _ _
    _ ≤ n * 2 ^ f := by gcongr

/-- Of two sizes the one with the greater exponent is greater. -/
theorem compare_size {m n : ℕ} {e f : ℤ} (hm : Canonical m e) (hn : Canonical n f) :
    (compare e f).then (compare m n) = compare ((m : ℝ) * 2 ^ e) (n * 2 ^ f) := by
  obtain h | rfl | h := lt_trichotomy e f
  · rw [compare_lt_iff_lt.mpr h, compare_lt_iff_lt.mpr (lt_of_exponent_lt hm hn h)]
    rfl
  · have hpos : (0 : ℝ) < 2 ^ e := by positivity
    rw [compare_eq_iff_eq.mpr rfl, Ordering.eq_then]
    obtain h | rfl | h := lt_trichotomy m n
    · rw [compare_lt_iff_lt.mpr h, compare_lt_iff_lt.mpr]
      gcongr
    · rw [compare_eq_iff_eq.mpr rfl, compare_eq_iff_eq.mpr rfl]
    · rw [compare_gt_iff_gt.mpr h, compare_gt_iff_gt.mpr]
      gcongr
  · rw [compare_gt_iff_gt.mpr h, compare_gt_iff_gt.mpr (lt_of_exponent_lt hn hm h)]
    rfl

theorem compare_neg (a b : ℝ) : compare (-a) (-b) = (compare a b).swap := by
  obtain h | rfl | h := lt_trichotomy a b
  · rw [compare_lt_iff_lt.mpr h, compare_gt_iff_gt.mpr (neg_lt_neg h)]
    rfl
  · rw [compare_eq_iff_eq.mpr rfl, compare_eq_iff_eq.mpr rfl]
    rfl
  · rw [compare_gt_iff_gt.mpr h, compare_lt_iff_lt.mpr (neg_lt_neg h)]
    rfl

theorem compare_number (hx : reading x = .number s p) (hy : reading y = .number t q) :
    x.toModel.unpack.compare y.toModel.unpack = some (compare (signed s p) (signed t q)) := by
  obtain ⟨hu, rfl⟩ | ⟨m, e, hm, hu, hc, hp⟩ := form_of_number hx
  · obtain ⟨hv, rfl⟩ | ⟨n, f, hn, hv, hd, hq⟩ := form_of_number hy
    · have h : signed s 0 = signed t 0 := by cases s <;> cases t <;> simp
      rw [hu, hv, h, compare_eq_iff_eq.mpr rfl]
      rfl
    · have hq' : 0 < q := by rw [hq]; positivity
      have h : signed s 0 = 0 := by cases s <;> simp
      rw [hu, hv, h]
      cases t with
      | false => rw [signed_false, compare_lt_iff_lt.mpr hq']; rfl
      | true => rw [signed_true, compare_gt_iff_gt.mpr (neg_lt_zero.mpr hq')]; rfl
  have hp' : 0 < p := by rw [hp]; positivity
  obtain ⟨hv, rfl⟩ | ⟨n, f, hn, hv, hd, hq⟩ := form_of_number hy
  · have h : signed t 0 = 0 := by cases t <;> simp
    rw [hu, hv, h]
    cases s with
    | false => rw [signed_false, compare_gt_iff_gt.mpr hp']; rfl
    | true => rw [signed_true, compare_lt_iff_lt.mpr (neg_lt_zero.mpr hp')]; rfl
  have hq' : 0 < q := by rw [hq]; positivity
  have hsize := compare_size hc hd
  rw [← hp, ← hq] at hsize
  rw [hu, hv]
  cases s with
  | false =>
    cases t with
    | false => exact congrArg some hsize
    | true => rw [signed_false, signed_true, compare_gt_iff_gt.mpr (by linarith)]; rfl
  | true =>
    cases t with
    | false => rw [signed_false, signed_true, compare_lt_iff_lt.mpr (by linarith)]; rfl
    | true =>
      rw [signed_true, signed_true, compare_neg, ← hsize]
      rfl

/-- An infinity as an extended real. -/
noncomputable def bound (negative : Bool) : EReal := if negative then ⊥ else ⊤

/-- The extended real that a number stands for. -/
noncomputable def Reading.extended : Reading → Option EReal
  | .nan => none
  | .infinite s => some (bound s)
  | .number s q => some (signed s q : ℝ)

theorem compare_coe (a b : ℝ) : compare (a : EReal) b = compare a b := by
  obtain h | rfl | h := lt_trichotomy a b
  · rw [compare_lt_iff_lt.mpr h, compare_lt_iff_lt.mpr (EReal.coe_lt_coe_iff.mpr h)]
  · rw [compare_eq_iff_eq.mpr rfl, compare_eq_iff_eq.mpr rfl]
  · rw [compare_gt_iff_gt.mpr h, compare_gt_iff_gt.mpr (EReal.coe_lt_coe_iff.mpr h)]

theorem compare_bounds (s t : Bool) :
    (infinity (signOf s)).compare (infinity (signOf t)) = some (compare (bound s) (bound t)) := by
  have heq (c : EReal) : compare c c = .eq := compare_eq_iff_eq.mpr rfl
  have hlt : compare (bound true) (bound false) = .lt := compare_lt_iff_lt.mpr bot_lt_top
  have hgt : compare (bound false) (bound true) = .gt := compare_gt_iff_gt.mpr bot_lt_top
  cases s with
  | false =>
    cases t with
    | false => rw [heq]; rfl
    | true => rw [hgt]; rfl
  | true =>
    cases t with
    | false => rw [hlt]; rfl
    | true => rw [heq]; rfl

theorem compare_bound_number (s : Bool) (hy : reading y = .number t q) :
    (infinity (signOf s)).compare y.toModel.unpack = some (compare (bound s) (signed t q : ℝ)) ∧
      y.toModel.unpack.compare (infinity (signOf s)) =
        some (compare ((signed t q : ℝ) : EReal) (bound s)) := by
  have hbot (c : ℝ) : (bound true) < c := EReal.bot_lt_coe c
  have htop (c : ℝ) : c < (bound false) := EReal.coe_lt_top c
  cases s with
  | false =>
    rw [compare_gt_iff_gt.mpr (htop _), compare_lt_iff_lt.mpr (htop _)]
    obtain ⟨hv, -⟩ | ⟨n, f, hn, hv, -, -⟩ := form_of_number hy <;> rw [hv] <;> exact ⟨rfl, rfl⟩
  | true =>
    rw [compare_lt_iff_lt.mpr (hbot _), compare_gt_iff_gt.mpr (hbot _)]
    obtain ⟨hv, -⟩ | ⟨n, f, hn, hv, -, -⟩ := form_of_number hy <;> rw [hv] <;> exact ⟨rfl, rfl⟩

theorem compare_eq {a b : EReal} (ha : (reading x).extended = some a)
    (hb : (reading y).extended = some b) :
    x.toModel.unpack.compare y.toModel.unpack = some (compare a b) := by
  cases hx : reading x with
  | nan => rw [hx] at ha; cases ha
  | infinite s =>
    rw [hx] at ha
    cases ha
    rw [form_of_infinite hx]
    cases hy : reading y with
    | nan => rw [hy] at hb; cases hb
    | infinite t =>
      rw [hy] at hb
      cases hb
      rw [form_of_infinite hy, compare_bounds]
    | number t q =>
      rw [hy] at hb
      cases hb
      exact (compare_bound_number s hy).1
  | number s p =>
    rw [hx] at ha
    cases ha
    cases hy : reading y with
    | nan => rw [hy] at hb; cases hb
    | infinite t =>
      rw [hy] at hb
      cases hb
      rw [form_of_infinite hy]
      exact (compare_bound_number t hx).2
    | number t q =>
      rw [hy] at hb
      cases hb
      rw [compare_number hx hy, compare_coe]

theorem compare_nan (h : reading x = .nan ∨ reading y = .nan) :
    x.toModel.unpack.compare y.toModel.unpack = none := by
  obtain h | h := h
  · rw [form_of_nan h]
    rfl
  · rw [form_of_nan h]
    cases x.toModel.unpack <;> rfl

theorem exists_extended (hx : reading x ≠ .nan) : ∃ a, (reading x).extended = some a := by
  cases hr : reading x with
  | nan => exact absurd hr hx
  | infinite | number => exact ⟨_, rfl⟩

theorem extended_of_compare {o : Ordering}
    (h : x.toModel.unpack.compare y.toModel.unpack = some o) :
    ∃ a b, (reading x).extended = some a ∧ (reading y).extended = some b ∧ compare a b = o := by
  have hx : reading x ≠ .nan := fun hx => by rw [compare_nan (.inl hx)] at h; cases h
  have hy : reading y ≠ .nan := fun hy => by rw [compare_nan (.inr hy)] at h; cases h
  obtain ⟨a, ha⟩ := exists_extended hx
  obtain ⟨b, hb⟩ := exists_extended hy
  rw [compare_eq ha hb, Option.some.injEq] at h
  exact ⟨a, b, ha, hb, h⟩

theorem lt_iff : x < y ↔
    ∃ a b, (reading x).extended = some a ∧ (reading y).extended = some b ∧ a < b := by
  rw [lt_iff_compare]
  constructor
  · intro h
    obtain ⟨a, b, ha, hb, hab⟩ := extended_of_compare h
    exact ⟨a, b, ha, hb, compare_lt_iff_lt.mp hab⟩
  · rintro ⟨a, b, ha, hb, hab⟩
    rw [compare_eq ha hb, compare_lt_iff_lt.mpr hab]

theorem le_iff : x ≤ y ↔
    ∃ a b, (reading x).extended = some a ∧ (reading y).extended = some b ∧ a ≤ b := by
  have hle : x ≤ y ↔ ∃ o, x.toModel.unpack.compare y.toModel.unpack = some o ∧ o.isLE = true := by
    change decide (UnpackedFloat.le _ _ = true) = true ↔ _
    rw [decide_eq_true_iff, UnpackedFloat.le, Option.any_eq_true]
  rw [hle]
  constructor
  · rintro ⟨o, ho, hle⟩
    obtain ⟨a, b, ha, hb, rfl⟩ := extended_of_compare ho
    exact ⟨a, b, ha, hb, compare_le_iff_le.mp (Ordering.isLE_iff_ne_gt.mp hle)⟩
  · rintro ⟨a, b, ha, hb, hab⟩
    exact ⟨_, compare_eq ha hb, Ordering.isLE_iff_ne_gt.mpr (compare_le_iff_le.mpr hab)⟩

theorem not_lt_of_le (h : x ≤ y) : ¬y < x := by
  obtain ⟨a, b, ha, hb, hab⟩ := le_iff.mp h
  intro hlt
  obtain ⟨b', a', hb', ha', hlt⟩ := lt_iff.mp hlt
  obtain rfl := Option.some.inj (ha.symm.trans ha')
  obtain rfl := Option.some.inj (hb.symm.trans hb')
  exact absurd hlt (not_lt.mpr hab)

theorem le_of_lt (h : x < y) : x ≤ y := by
  obtain ⟨a, b, ha, hb, hab⟩ := lt_iff.mp h
  exact le_iff.mpr ⟨a, b, ha, hb, hab.le⟩

theorem le_refl_of_not_nan (hx : reading x ≠ .nan) : x ≤ x := by
  obtain ⟨a, ha⟩ := exists_extended hx
  exact le_iff.mpr ⟨a, a, ha, ha, le_rfl⟩

protected theorem le_trans (h : x ≤ y) (h' : y ≤ z) : x ≤ z := by
  obtain ⟨a, b, ha, hb, hab⟩ := le_iff.mp h
  obtain ⟨b', c, hb', hc, hbc⟩ := le_iff.mp h'
  obtain rfl := Option.some.inj (hb.symm.trans hb')
  exact le_iff.mpr ⟨a, c, ha, hc, hab.trans hbc⟩

protected theorem lt_of_lt_of_le (h : x < y) (h' : y ≤ z) : x < z := by
  obtain ⟨a, b, ha, hb, hab⟩ := lt_iff.mp h
  obtain ⟨b', c, hb', hc, hbc⟩ := le_iff.mp h'
  obtain rfl := Option.some.inj (hb.symm.trans hb')
  exact lt_iff.mpr ⟨a, c, ha, hc, hab.trans_le hbc⟩

protected theorem lt_of_le_of_lt (h : x ≤ y) (h' : y < z) : x < z := by
  obtain ⟨a, b, ha, hb, hab⟩ := le_iff.mp h
  obtain ⟨b', c, hb', hc, hbc⟩ := lt_iff.mp h'
  obtain rfl := Option.some.inj (hb.symm.trans hb')
  exact lt_iff.mpr ⟨a, c, ha, hc, hab.trans_lt hbc⟩

/-- A NaN is not below anything, nor anything below it. -/
theorem not_lt_of_nan (h : reading x = .nan ∨ reading y = .nan) : ¬x < y := by
  intro hlt
  rw [lt_iff_compare, compare_nan h] at hlt
  cases hlt

theorem isNaN_iff_reading : x.isNaN = true ↔ reading x = .nan := by
  rw [isNaN_iff]
  constructor
  · intro h
    rw [reading_eq, h]
    rfl
  · exact form_of_nan

end VisibleDifference.Binary
