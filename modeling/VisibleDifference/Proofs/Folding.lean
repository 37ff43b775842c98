import VisibleDifference.Proofs.Exact.Orientation

/-!
# Folding is the mirror map

A row mirrored at both ends leaves its own positions alone and brings all others inside. One
function does so and no other: a position outside is turned over at one end or the other, which
brings it nearer to zero, until it is inside. The argument never looks further than the position it
starts from, so it also holds of what obeys the mirrors only as far as positions can be written down.

The same is computed with machine words. Where words wrap around, twice the length may do so, as
long as the period itself is a distance; where they trap, twice the length has to be a distance, too.
-/

namespace VisibleDifference

/-- Positions inside a row of `len` samples are shown as they are, and the ends are mirrors. -/
structure FoldsInto (len : ℕ) (f : ℤ → ℕ) : Prop extends MirroredAtEnds len f where
  lt : ∀ i, f i < len
  inside : ∀ x : ℕ, x < len → f x = x

/-- The same of the positions up to `reach` on both sides of the first one. -/
structure FoldsWithin (len reach : ℕ) (f : ℤ → ℕ) : Prop where
  lt : ∀ i, i.natAbs ≤ reach → f i < len
  inside : ∀ x : ℕ, x < len → x ≤ reach → f x = x
  first : ∀ i, i.natAbs ≤ reach → f (-i) = f i
  last : ∀ i, i.natAbs ≤ reach → (2 * ((len : ℤ) - 1) - i).natAbs ≤ reach →
    f (2 * ((len : ℤ) - 1) - i) = f i

variable {len reach : ℕ} {f : ℤ → ℕ}

theorem FoldsInto.within (hf : FoldsInto len f) (reach : ℕ) : FoldsWithin len reach f where
  lt i _ := hf.lt i
  inside x hx _ := hf.inside x hx
  first i _ := hf.first i
  last i _ _ := hf.last i

theorem foldsInto_foldBack (hl : 0 < len) : FoldsInto len (foldBack len) where
  toMirroredAtEnds := mirroredAtEnds_foldBack len
  lt := foldBack_lt hl
  inside _ hx := foldBack_of_lt hx

/-- The induction is on how far the position is from the first one; each turn at an end brings it
nearer. -/
theorem FoldsWithin.eq_foldBack (hf : FoldsWithin len reach f) (hl : 0 < len) (i : ℤ)
    (hi : i.natAbs ≤ reach) : f i = foldBack len i := by
  have hfold := foldsInto_foldBack hl
  induction hn : i.natAbs using Nat.strong_induction_on generalizing i with
  | _ n ih =>
    -- a position before the first is as far from it as its mirror image
    wlog hpos : 0 ≤ i generalizing i
    · rw [← hf.first i hi, ← hfold.first i]
      exact this (-i) (by omega) (by omega) (by omega)
    obtain ⟨x, rfl⟩ := Int.eq_ofNat_of_zero_le hpos
    by_cases hx : x < len
    · rw [hf.inside x hx (by omega), hfold.inside x hx]
    by_cases h1 : len = 1
    · have hfx := hf.lt x hi
      have hx := hfold.lt x
      omega
    · have hnear : (2 * ((len : ℤ) - 1) - x).natAbs < n := by omega
      rw [← hf.last x hi (by omega), ← hfold.last x]
      exact ih _ hnear _ (by omega) rfl

theorem FoldsInto.eq_foldBack (hf : FoldsInto len f) (hl : 0 < len) : f = foldBack len :=
  funext fun i => (hf.within i.natAbs).eq_foldBack hl i le_rfl

/-- Folding brings no two positions further apart. -/
theorem foldBack_sub_le (len : ℕ) (i j : ℤ) :
    ((foldBack len i : ℤ) - foldBack len j).natAbs ≤ (i - j).natAbs := by
  wlog hij : i ≤ j generalizing i j
  · have hji := this j i (by omega)
    omega
  obtain ⟨n, rfl⟩ := Int.le.dest hij
  obtain ⟨hfirst, hsecond⟩ := foldBack_walk len n i
  omega

section Words

/-- The remainder that is not negative, from a division rounded towards zero. -/
def wordRemainder (i p : Int64) : Int64 :=
  let r := i % p
  if r < 0 then if p < 0 then r - p else r + p else r

/-- The sample shown at position `i` of a row of `len` samples, computed with words that wrap
around. -/
def wordFold (len : UInt64) (i : Int64) : UInt64 :=
  if len = 1 then 0
  else
    let period := 2 * len.toInt64 - 2
    let r := (wordRemainder i period).toUInt64
    if r < len then r else period.toUInt64 - r

theorem bmod_of_distance {i : ℤ} (hl : -2 ^ 63 ≤ i) (hu : i < 2 ^ 63) : i.bmod (2 ^ 64) = i :=
  Int.bmod_eq_of_le (by omega) (by omega)

theorem toInt_wordRemainder {i p : Int64} (hp : 0 < p.toInt) :
    (wordRemainder i p).toInt = i.toInt % p.toInt := by
  have hr : (i % p).toInt = i.toInt % p.toInt -
      (if 0 ≤ i.toInt ∨ p.toInt ∣ i.toInt then 0 else p.toInt.natAbs : ℕ) := by
    rw [Int64.toInt_mod, Int.tmod_eq_emod]
  have hpos := Int.emod_nonneg i.toInt hp.ne'
  have hlt := Int.emod_lt_of_pos i.toInt hp
  have hword := p.toInt_lt
  have hzero : (0 : Int64).toInt = 0 := rfl
  simp only [wordRemainder, Int64.lt_iff_toInt_lt, hzero, if_neg (show ¬p.toInt < 0 by omega)]
  split at hr
  · rw [if_neg (by omega), hr]
    omega
  · rw [if_pos (by omega), Int64.toInt_add, bmod_of_distance (by omega) (by omega)]
    omega

theorem toInt_toInt64 {n : UInt64} (hn : n.toNat < 2 ^ 63) : n.toInt64.toInt = n.toNat :=
  BitVec.toInt_eq_toNat_of_lt (by change 2 * n.toNat < 2 ^ 64; omega)

theorem toNat_toUInt64 {x : Int64} (hx : 0 ≤ x.toInt) : (x.toUInt64.toNat : ℤ) = x.toInt := by
  have hzero : (0 : Int64) ≤ x := Int64.le_iff_toInt_le.mpr hx
  rw [Int64.toNat_toUInt64_of_le hzero]
  exact Int.toNat_of_nonneg hx

/-- Twice the length may wrap around; what matters is the period. -/
theorem toInt_period {len : UInt64} (hl : 1 < len.toNat) (hm : 2 * len.toNat - 2 < 2 ^ 63) :
    (2 * len.toInt64 - 2).toInt = 2 * (len.toNat : ℤ) - 2 := by
  have htwo : (2 : Int64).toInt = 2 := rfl
  have hlen : len.toInt64.toInt = len.toNat := toInt_toInt64 (by omega)
  rw [Int64.toInt_sub, Int64.toInt_mul, htwo, hlen, Int.bmod_sub_bmod]
  exact bmod_of_distance (by omega) (by omega)

theorem toNat_wordFold {len : UInt64} (hl : 0 < len.toNat) (hm : 2 * len.toNat - 2 < 2 ^ 63)
    (i : Int64) : (wordFold len i).toNat = foldBack len.toNat i.toInt := by
  by_cases h1 : len.toNat = 1
  · have hone : len = 1 := UInt64.toNat_inj.mp h1
    rw [wordFold, if_pos hone, foldBack, if_pos h1.le]
    rfl
  have hne : len ≠ 1 := fun h => h1 (congrArg UInt64.toNat h)
  have hperiod := toInt_period (by omega) hm
  have hr : (wordRemainder i (2 * len.toInt64 - 2)).toInt =
      i.toInt % ((2 * len.toNat - 2 : ℕ) : ℤ) := by
    rw [toInt_wordRemainder (by omega), hperiod]
    congr 1
    omega
  have hpos := Int.emod_nonneg i.toInt (b := ((2 * len.toNat - 2 : ℕ) : ℤ)) (by omega)
  have hlt := Int.emod_lt_of_pos i.toInt (b := ((2 * len.toNat - 2 : ℕ) : ℤ)) (by omega)
  have hr' := toNat_toUInt64 (x := wordRemainder i (2 * len.toInt64 - 2)) (by omega)
  have hp' := toNat_toUInt64 (x := 2 * len.toInt64 - 2) (by omega)
  simp only [wordFold, if_neg hne, foldBack, if_neg (show ¬len.toNat ≤ 1 by omega),
    UInt64.lt_iff_toNat_lt]
  split
  · rw [if_pos (by omega)]
    omega
  · rw [if_neg (by omega), UInt64.toNat_sub_of_le _ _ (UInt64.le_iff_toNat_le.mpr (by omega))]
    omega

end Words

open Checked in
/-- Folding leaves a row's own positions alone, brings all others inside and mirrors at both ends,
and it is all that does, also among what obeys these laws as far as `reach` only. It treats both
ends alike and moves no two positions apart. Words that wrap around compute it for each position if the
period is a distance, and words that trap if twice the length is one. -/
theorem foldBack_is_the_only_mirror_map (len : ℕ) (hl : 0 < len) :
    FoldsInto len (foldBack len) ∧
    (∀ f, FoldsInto len f → f = foldBack len) ∧
    (∀ reach f, FoldsWithin len reach f → ∀ i, i.natAbs ≤ reach → f i = foldBack len i) ∧
    (∀ i, foldBack len ((len : ℤ) - 1 - i) = len - 1 - foldBack len i) ∧
    (∀ i j, ((foldBack len i : ℤ) - foldBack len j).natAbs ≤ (i - j).natAbs) ∧
    (∀ n : UInt64, n.toNat = len → 2 * len - 2 < distanceLimit →
      ∀ i : Int64, (wordFold n i).toNat = foldBack len i.toInt) ∧
    (2 * len < distanceLimit → ∀ i, checkedFold len i = .ok (foldBack len i)) := by
  refine ⟨foldsInto_foldBack hl, fun f hf => hf.eq_foldBack hl,
    fun reach f hf => hf.eq_foldBack hl, foldBack_rev hl, foldBack_sub_le len, ?_,
    checkedFold_eq hl⟩
  rintro n rfl hm i
  exact toNat_wordFold hl hm i

/-- Up and down between zero and four. -/
def triangle (i : ℤ) : ℕ := ((i + 4) % 8 - 4).natAbs

theorem foldsInto_triangle : FoldsInto 5 triangle := by
  constructor
  · constructor <;> intro i <;> unfold triangle <;> omega
  · intro i
    unfold triangle
    omega
  · intro x hx
    unfold triangle
    omega

/-- The triangle is the row of five samples folded back, in words as well. -/
theorem triangle_folds_five_samples :
    0 < 5 ∧ FoldsInto 5 triangle ∧ triangle = foldBack 5 ∧
      FoldsWithin 5 6 triangle ∧ triangle 6 = foldBack 5 6 ∧
      (5 : UInt64).toNat = 5 ∧ 2 * 5 < Checked.distanceLimit ∧
      (wordFold 5 (-2)).toNat = triangle (-2) ∧ checkedFold 5 (-2) = .ok (triangle (-2)) := by
  obtain ⟨-, honly, hnear, -, -, hword, hchecked⟩ :=
    foldBack_is_the_only_mirror_map 5 (by decide)
  have hlimit : 2 * 5 < Checked.distanceLimit := by decide
  have heq := honly triangle foldsInto_triangle
  have hwithin := foldsInto_triangle.within 6
  refine ⟨by decide, foldsInto_triangle, heq, hwithin, hnear 6 triangle hwithin 6 (by decide), rfl,
    hlimit, ?_, ?_⟩
  · rw [heq]
    exact hword 5 rfl (by omega) (-2)
  · rw [heq]
    exact hchecked hlimit (-2)

end VisibleDifference
