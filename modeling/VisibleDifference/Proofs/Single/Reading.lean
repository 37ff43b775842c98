import VisibleDifference.Proofs.Single.Forms

/-!
# What single-precision numbers stand for

A number stands for NaN, for an infinity, or for a sign and a size; a zero has a sign too. The sizes
are the points of a grid: multiples of `2 ^ e` below `2 ^ (e + 24)`, for the exponents of single
precision. A grid point is a multiple of any step that leaves it 24 digits.
-/

namespace VisibleDifference.Binary

open Float.Model (Format UnpackedFloat)
open Float.Model.UnpackedFloat

inductive Reading where
  | nan
  | infinite (negative : Bool)
  | number (negative : Bool) (size : ℝ)

noncomputable def Value.reading : Value → Reading
  | .nan => .nan
  | .infinite negative => .infinite negative
  | .finite negative m e => .number negative (m * 2 ^ e)

noncomputable def reading (x : Float32) : Reading := (Value.ofSingle x).reading

/-- The sizes of single-precision numbers. -/
def Grid (b : ℝ) : Prop :=
  ∃ (m : ℕ) (e : ℤ), m < 2 ^ 24 ∧ -149 ≤ e ∧ e ≤ 104 ∧ b = m * 2 ^ e

namespace Grid

theorem nonneg {b : ℝ} (hb : Grid b) : 0 ≤ b := by
  obtain ⟨m, e, -, -, -, rfl⟩ := hb
  positivity

theorem zero : Grid 0 := ⟨0, 0, by norm_num, by norm_num, by norm_num, by simp⟩

theorem nat {n : ℕ} (hn : n < 2 ^ 24) : Grid n := ⟨n, 0, hn, by norm_num, by norm_num, by simp⟩

theorem one : Grid 1 := by simpa using nat (n := 1) (by norm_num)

theorem two_zpow {k : ℤ} (hl : -149 ≤ k) (hu : k ≤ 127) : Grid (2 ^ k) := by
  by_cases hk : k ≤ 104
  · exact ⟨1, k, by norm_num, hl, hk, by simp⟩
  · refine ⟨2 ^ 23, k - 23, by norm_num, by omega, by omega, ?_⟩
    rw [Nat.cast_pow, Nat.cast_ofNat, ← zpow_natCast, ← zpow_add₀ two_ne_zero]
    congr 1
    omega

theorem two_pow {k : ℕ} (hk : k ≤ 127) : Grid (2 ^ k) := by
  rw [← zpow_natCast]
  exact two_zpow (by omega) (by exact_mod_cast hk)

theorem lt_overflow {b : ℝ} (hb : Grid b) : b < 2 ^ (128 : ℤ) := by
  obtain ⟨m, e, hm, -, he, rfl⟩ := hb
  have hm' : (m : ℝ) < 2 ^ (24 : ℤ) := by exact_mod_cast hm
  calc (m : ℝ) * 2 ^ e < 2 ^ (24 : ℤ) * 2 ^ e := by gcongr
    _ ≤ 2 ^ (24 : ℤ) * 2 ^ (104 : ℤ) := by gcongr; norm_num
    _ = 2 ^ (128 : ℤ) := by rw [← zpow_add₀ two_ne_zero]; norm_num

/-- A grid point is a multiple of a step, unless it is too small for the step. -/
theorem multiple_or_lt {b : ℝ} (hb : Grid b) (t : ℤ) :
    (∃ n : ℕ, b = n * 2 ^ t) ∨ b < 2 ^ (t + 23) ∧ -149 < t := by
  obtain ⟨m, e, hm, hl, -, rfl⟩ := hb
  by_cases ht : t ≤ e
  · left
    obtain ⟨k, rfl⟩ := Int.le.dest ht
    refine ⟨m * 2 ^ k, ?_⟩
    rw [zpow_add₀ two_ne_zero, zpow_natCast]
    push_cast
    ring
  · right
    have hm' : (m : ℝ) < 2 ^ (24 : ℤ) := by exact_mod_cast hm
    refine ⟨?_, by omega⟩
    calc (m : ℝ) * 2 ^ e < 2 ^ (24 : ℤ) * 2 ^ e := by gcongr
      _ = 2 ^ (24 + e) := (zpow_add₀ two_ne_zero _ _).symm
      _ ≤ 2 ^ (t + 23) := zpow_le_zpow_right₀ one_le_two (by omega)

end Grid

variable {x y : Float32}

theorem reading_eq (x : Float32) : reading x = (Value.ofUnpacked x.toModel.unpack).reading := by
  rw [reading, Value.ofSingle_eq_ofUnpacked]

theorem bounds_of_ofSingle {s : Bool} {m : ℕ} {e : ℤ} (h : Value.ofSingle x = .finite s m e) :
    m < 2 ^ 24 ∧ -149 ≤ e ∧ e ≤ 104 := by
  have hc := isCanonical_unpack_toModel x
  rw [Value.ofSingle_eq_ofUnpacked] at h
  cases hu : x.toModel.unpack with
  | notANumber | infinity => rw [hu] at h; cases h
  | zero t =>
    rw [hu] at h
    cases h
    decide
  | finite t m e hm =>
    rw [hu] at h hc
    cases h
    exact ⟨hc.lt, hc.least, hc.greatest⟩

theorem form_of_reading {s : Bool} {q : ℝ} (h : reading x = .number s q) :
    ∃ m e, Value.ofSingle x = .finite s m e ∧ q = m * 2 ^ e := by
  rw [reading] at h
  cases hv : Value.ofSingle x with
  | nan | infinite => rw [hv] at h; cases h
  | finite t m e =>
    rw [hv] at h
    cases h
    exact ⟨m, e, rfl, rfl⟩

theorem grid_of_reading {s : Bool} {q : ℝ} (h : reading x = .number s q) : Grid q := by
  obtain ⟨m, e, hm, rfl⟩ := form_of_reading h
  obtain ⟨hlt, hl, hu⟩ := bounds_of_ofSingle hm
  exact ⟨m, e, hlt, hl, hu, rfl⟩

theorem ofSingle_infinite (h : reading x = .infinite s) : Value.ofSingle x = .infinite s := by
  rw [reading] at h
  cases hv : Value.ofSingle x with
  | nan | finite => rw [hv] at h; cases h
  | infinite t =>
    rw [hv] at h
    cases h
    rfl

theorem ne_zero_of_pos {m : ℕ} {e : ℤ} (h : 0 < (m : ℝ) * 2 ^ e) : m ≠ 0 := by
  rintro rfl
  simp at h

theorem size_nonneg {s : Bool} {q : ℝ} (h : reading x = .number s q) : 0 ≤ q :=
  (grid_of_reading h).nonneg

/-- A packed mantissa is read as it is, or as an infinity if the number is too large. -/
theorem reading_pack_finite {s : Sign} {m : ℕ} {e : ℤ} (hpos : 0 < m) (hlt : m < 2 ^ 24)
    (hleast : -149 ≤ e) (hfull : 2 ^ 23 ≤ m ∨ e = -149) :
    reading (.ofModel (.pack (.finite s m e hpos))) =
      if (m : ℝ) * 2 ^ e < 2 ^ (128 : ℤ) then .number (s == .negative) (m * 2 ^ e)
      else .infinite (s == .negative) := by
  rw [reading_eq]
  by_cases he : e ≤ 104
  · have hc : Canonical m e := ⟨hpos, hlt, hleast, he, hfull⟩
    have hu : (Float32.ofModel (.pack (.finite s m e hpos))).toModel.unpack = .finite s m e hpos :=
      unpack_toModel_pack hc
    rw [if_pos (Grid.lt_overflow ⟨m, e, hlt, hleast, he, rfl⟩), hu]
    rfl
  · have hm : 2 ^ 23 ≤ m := hfull.resolve_right (by omega)
    have hm' : (2 : ℝ) ^ (23 : ℤ) ≤ m := by exact_mod_cast hm
    have hover : (2 : ℝ) ^ (128 : ℤ) ≤ m * 2 ^ e := by
      calc (2 : ℝ) ^ (128 : ℤ) ≤ 2 ^ (23 + e) := zpow_le_zpow_right₀ one_le_two (by omega)
        _ = 2 ^ (23 : ℤ) * 2 ^ e := zpow_add₀ two_ne_zero _ _
        _ ≤ m * 2 ^ e := by gcongr
    have hu : (Float32.ofModel (.pack (.finite s m e hpos))).toModel.unpack = .infinity s :=
      unpack_pack_overflow hpos (by omega)
    rw [if_neg (not_lt.mpr hover), hu]
    rfl

theorem reading_pack_zero (s : Sign) :
    reading (.ofModel (.pack (.zero s))) = .number (s == .negative) 0 := by
  rw [reading_eq, unpack_toModel_pack (f := .zero s) trivial, Value.ofUnpacked, Value.reading,
    Nat.cast_zero, zero_mul]

theorem reading_pack_infinity (s : Sign) :
    reading (.ofModel (.pack (.infinity s))) = .infinite (s == .negative) := by
  rw [reading_eq, unpack_toModel_pack (f := .infinity s) trivial]
  rfl

theorem reading_pack_notANumber : reading (.ofModel (.pack .notANumber)) = .nan := by
  rw [reading_eq, unpack_toModel_pack (f := .notANumber) trivial]
  rfl

end VisibleDifference.Binary
