import VisibleDifference.Arithmetic
import VisibleDifference.Proofs.Single.Forms

/-!
# Laws of exchange and of sign

A sum does not depend on the order of its terms, a difference only in its sign, and a square not on
the sign of what is squared. Of two magnitudes the larger is the same in either order, also when
one of them or both are NaN.
-/

namespace VisibleDifference.Binary

open Float.Model (Format UnpackedFloat)
open Float.Model.UnpackedFloat

theorem add_form_comm (f g : UnpackedFloat) :
    add Format.binary32 f g = add Format.binary32 g f := by
  have hsign : ∀ s t : Sign, (s == t) = (t == s) := by intro s t; cases s <;> cases t <;> rfl
  cases f with
  | notANumber => cases g <;> rfl
  | infinity s =>
    cases g with
    | infinity t => cases s <;> cases t <;> rfl
    | notANumber | zero | finite => rfl
  | zero s =>
    cases g with
    | zero t => cases s <;> cases t <;> rfl
    | notANumber | infinity | finite => rfl
  | finite s m e hm =>
    cases g with
    | finite t n f hn =>
      simp only [add, Int.min_comm e f, Int.add_comm (s.apply _)]
    | notANumber | infinity | zero => rfl

protected theorem add_comm (x y : Float32) : x + y = y + x :=
  congrArg (fun f => Float32.ofModel (.pack f)) (add_form_comm ..)

theorem abs_roundWithAccuracy (s : Sign) (m : Nat) (e : Int) (a : Accuracy) :
    (roundWithAccuracy Format.binary32 s m e a).abs =
      roundWithAccuracy Format.binary32 .positive m e a := by
  unfold roundWithAccuracy
  dsimp only
  split <;> rfl

theorem abs_normalize_neg (m e : Int) (s : Sign) :
    (UnpackedFloat.normalize Format.binary32 (-m) e s).abs =
      (UnpackedFloat.normalize Format.binary32 m e s).abs := by
  have habs (s : Sign) (n : Nat) : (round Format.binary32 s n e).abs =
      round Format.binary32 .positive n e := abs_roundWithAccuracy ..
  obtain h | rfl | h := Int.lt_trichotomy m 0
  · rw [UnpackedFloat.normalize, UnpackedFloat.normalize, Int.compare_eq_gt.mpr (by omega),
      Int.compare_eq_lt.mpr h]
    simp only [habs]
  · rfl
  · rw [UnpackedFloat.normalize, UnpackedFloat.normalize, Int.compare_eq_lt.mpr (by omega),
      Int.compare_eq_gt.mpr h]
    simp only [habs, Int.neg_neg]

theorem sub_form_abs (f g : UnpackedFloat) :
    (sub Format.binary32 f g).abs = (sub Format.binary32 g f).abs := by
  cases f with
  | notANumber => cases g <;> rfl
  | infinity s =>
    cases g with
    | infinity t => cases s <;> cases t <;> rfl
    | notANumber | zero | finite => rfl
  | zero s =>
    cases g with
    | zero t => cases s <;> cases t <;> rfl
    | notANumber | infinity | finite => rfl
  | finite s m e hm =>
    cases g with
    | finite t n f hn =>
      simp only [sub, Int.min_comm e f]
      rw [← abs_normalize_neg, Int.neg_sub]
    | notANumber | infinity | zero => rfl

theorem abs_ofFields (s : Sign) (x f : Nat) : (ofFields s x f).abs = ofFields .positive x f := by
  unfold ofFields
  split_ifs <;> rfl

/-- Packing keeps the sign apart from the other fields. -/
theorem abs_unpack_pack (f : UnpackedFloat) :
    (unpack Format.binary32 (pack Format.binary32 f)).abs =
      unpack Format.binary32 (pack Format.binary32 f.abs) := by
  have hparts (s : Sign) (x : BitVec 8) (f : BitVec 23) :
      (unpack Format.binary32 (packComponents Format.binary32 s x f)).abs =
        unpack Format.binary32 (packComponents Format.binary32 .positive x f) := by
    rw [unpack_packComponents, unpack_packComponents, abs_ofFields]
  cases f with
  | notANumber | infinity | zero => exact hparts ..
  | finite s m e hm =>
    rw [UnpackedFloat.abs, pack_finite, pack_finite]
    split_ifs <;> exact hparts ..

theorem isCanonical_abs {f : UnpackedFloat} (h : IsCanonical f) : IsCanonical f.abs := by
  cases f with
  | notANumber | infinity | zero => trivial
  | finite => exact h

theorem unpack_abs (x : Float32) : x.abs.toModel.unpack = x.toModel.unpack.abs :=
  unpack_toModel_pack (isCanonical_abs (isCanonical_unpack_toModel x))

theorem abs_sub_comm (x y : Float32) : (x - y).abs = (y - x).abs := by
  have hsub (x y : Float32) : (x - y).toModel.unpack.abs = unpack Format.binary32
      (pack Format.binary32 (sub Format.binary32 x.toModel.unpack y.toModel.unpack).abs) :=
    abs_unpack_pack _
  apply eq_of_unpack_eq
  rw [unpack_abs, unpack_abs, hsub, hsub, sub_form_abs]

theorem mul_form_self_abs (f : UnpackedFloat) :
    mul Format.binary32 f.abs f.abs = mul Format.binary32 f f := by
  cases f with
  | notANumber => rfl
  | infinity s | zero s | finite s => cases s <;> rfl

theorem mul_self_abs (x : Float32) : x.abs * x.abs = x * x := by
  have hmul (y : Float32) : y * y =
    .ofModel (.pack (mul Format.binary32 y.toModel.unpack y.toModel.unpack)) := rfl
  rw [hmul, hmul, unpack_abs, mul_form_self_abs]

theorem mulAdd_self_abs (x c : Float32) : mulAdd x.abs x.abs c = mulAdd x x c := by
  have hmul (f : UnpackedFloat) : (Value.ofUnpacked f.abs).mul (Value.ofUnpacked f.abs) =
      (Value.ofUnpacked f).mul (Value.ofUnpacked f) := by
    cases f with
    | notANumber => rfl
    | infinity s | zero s | finite s => cases s <;> rfl
  rw [mulAdd, mulAdd, Value.ofSingle_eq_ofUnpacked x, Value.ofSingle_eq_ofUnpacked x.abs,
    unpack_abs, hmul]

theorem compare_abs_swap (f g : UnpackedFloat) :
    g.abs.compare f.abs = (f.abs.compare g.abs).map Ordering.swap := by
  cases f with
  | notANumber => cases g <;> rfl
  | infinity s | zero s => cases g <;> rfl
  | finite s m e hm =>
    cases g with
    | notANumber | infinity | zero => rfl
    | finite t n f hn =>
      simp only [UnpackedFloat.abs, UnpackedFloat.compare, Option.map_some, Ordering.swap_then]
      rw [← Std.OrientedCmp.eq_swap, ← Std.OrientedCmp.eq_swap]

theorem abs_eq_of_compare_eq {f g : UnpackedFloat} (h : f.abs.compare g.abs = some .eq) :
    f.abs = g.abs := by
  cases f with
  | notANumber => cases g <;> cases h
  | infinity | zero => cases g <;> first | rfl | cases h
  | finite s m e hm =>
    cases g with
    | notANumber | infinity | zero => cases h
    | finite t n f hn =>
      obtain ⟨he, hm⟩ := Ordering.then_eq_eq.mp (Option.some.inj h)
      obtain rfl := Int.compare_eq_eq.mp he
      obtain rfl := Nat.compare_eq_eq.mp hm
      rfl

theorem compare_isSome {f g : UnpackedFloat} (hf : f ≠ .notANumber) (hg : g ≠ .notANumber) :
    (f.compare g).isSome = true := by
  unfold UnpackedFloat.compare
  split <;> first | rfl | contradiction

theorem isNaN_iff {x : Float32} : x.isNaN = true ↔ x.toModel.unpack = .notANumber := by
  change x.toModel.unpack.isNaN = true ↔ _
  exact UnpackedFloat.isNaN_iff

theorem lt_iff_compare {x y : Float32} :
    x < y ↔ x.toModel.unpack.compare y.toModel.unpack = some .lt := by
  change decide (UnpackedFloat.lt _ _ = true) = true ↔ _
  rw [decide_eq_true_iff, UnpackedFloat.lt, beq_iff_eq]

theorem abs_lt_abs_iff {x y : Float32} :
    x.abs < y.abs ↔ x.toModel.unpack.abs.compare y.toModel.unpack.abs = some .lt := by
  rw [lt_iff_compare, unpack_abs, unpack_abs]

/-- Magnitudes of which neither is below the other are the same. -/
theorem abs_eq_of_not_lt {x y : Float32} (hx : x.abs.isNaN ≠ true) (hy : y.abs.isNaN ≠ true)
    (hxy : ¬ x.abs < y.abs) (hyx : ¬ y.abs < x.abs) : x.abs = y.abs := by
  rw [ne_eq, isNaN_iff, unpack_abs] at hx hy
  rw [abs_lt_abs_iff] at hxy hyx
  rw [compare_abs_swap] at hyx
  apply eq_of_unpack_eq
  rw [unpack_abs, unpack_abs]
  obtain ⟨o, ho⟩ := Option.isSome_iff_exists.mp (compare_isSome hx hy)
  rw [ho] at hxy hyx
  cases o with
  | lt => exact absurd rfl hxy
  | gt => exact absurd rfl hyx
  | eq => exact abs_eq_of_compare_eq ho

theorem abs_lt_asymm {x y : Float32} (h : x.abs < y.abs) : ¬ y.abs < x.abs := by
  rw [abs_lt_abs_iff] at h ⊢
  rw [compare_abs_swap, h]
  exact fun h => nomatch h

theorem larger_abs_comm (x y : Float32) : larger x.abs y.abs = larger y.abs x.abs := by
  unfold larger
  by_cases hx : x.abs.isNaN = true <;> by_cases hy : y.abs.isNaN = true
  · rw [if_pos hx, if_pos hy]
    rw [isNaN_iff] at hx hy
    exact eq_of_unpack_eq (hy.trans hx.symm)
  · rw [if_pos hx, if_neg hy, if_pos hx]
  · rw [if_neg hx, if_pos hy, if_pos hy]
  · rw [if_neg hx, if_neg hy, if_neg hx, if_neg hy]
    by_cases hxy : x.abs < y.abs
    · rw [if_pos hxy, if_neg (abs_lt_asymm hxy)]
    · by_cases hyx : y.abs < x.abs
      · rw [if_neg hxy, if_pos hyx]
      · rw [if_neg hxy, if_neg hyx, abs_eq_of_not_lt hx hy hxy hyx]

end VisibleDifference.Binary
