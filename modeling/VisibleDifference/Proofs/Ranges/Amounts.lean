import VisibleDifference.Proofs.Checked.Comparison
import VisibleDifference.Proofs.Unchanged

/-!
# What is compared

Light is at most one and white is finite, so a luminance is not NaN and has no sign, though it may
overflow. The weights of the low-pass kernel are positive: a blur multiplies no infinity by a zero
and lets no two infinities cancel, so the levels of a pyramid are not NaN either, nor is the mean of
two of them that the eye is adapted to. Colours are finite. This holds of the planes and of the
arrays in which they are stored.
-/

namespace VisibleDifference

open Binary (AtLeast Bounded UpTo reading)

/-- Neither NaN nor below zero, but infinite perhaps. -/
structure IsAmount (v : Float32) : Prop where
  nonneg : 0 ≤ v
  isNaN_eq : v.isNaN = false

theorem isAmount_of_atLeast {v : Float32} (h : AtLeast 0 v) : IsAmount v where
  nonneg := Binary.zero_le_of_atLeast h Binary.reading_zero
  isNaN_eq := Bool.eq_false_iff.mpr h.not_nan

variable {w h : Nat}

theorem Plane.forall_mem_stored {α : Type} {P : α → Prop} {p : Plane α w h} :
    (∀ v ∈ p.stored, P v) ↔ ∀ x y, P (p.get x y) := by
  constructor
  · intro hall x y
    have hi : y.val * w + x.val < p.stored.size := by
      rw [size_stored]
      exact index_lt x y
    exact hall _ (Array.getElem_mem hi)
  · intro hget v hv
    obtain ⟨i, hi, rfl⟩ := Array.mem_iff_getElem.mp hv
    rw [size_stored] at hi
    have hp := hget (column ⟨i, hi⟩) (row ⟨i, hi⟩)
    rwa [get_column_row] at hp

theorem nonneg_tapSum {p : Plane Float32 w h} (hp : ∀ x y, AtLeast 0 (p.get x y)) (x : Fin w)
    (y : Fin h) : AtLeast 0 (p.tapSum Kernel.lowPass x y) :=
  Plane.tapSum_induction (P := AtLeast 0) (Q := fun _ => AtLeast 0) hp
    (.inr ⟨0, Binary.reading_zero, le_rfl⟩)
    (fun r c _ _ _ hv hacc => Binary.nonneg_mulAdd (upTo_weight r c) (weight_pos r c) hv hacc) x y

theorem nonneg_value {p : Plane Float32 w h} (hp : ∀ x y, AtLeast 0 (p.get x y))
    (l : Fin levelCount) (x : Fin w) (y : Fin h) :
    AtLeast 0 ((Pyramid.of Kernel.lowPass p).value l x y) :=
  Pyramid.value_induction (P := fun _ => AtLeast 0) hp (fun _ _ hq => nonneg_tapSum hq) l x y

section Valid

variable {c : Conditions} (hv : c.validate = .ok ()) (words : Plane UInt32 w h) (x : Fin w)
  (y : Fin h)

include hv

theorem Appearance.nonneg_luminance :
    AtLeast 0 ((of c.gamma c.luminance words).luminance.get x y) := by
  obtain ⟨hgamma, hgamma', -⟩ := Conditions.inRange_of_validate hv .gamma
  obtain ⟨hpeak, hpeak', -⟩ := Conditions.inRange_of_validate hv .luminance
  obtain ⟨b, hb⟩ := Binary.upTo_of_isFinite hgamma hgamma'
  obtain ⟨d, hd⟩ := Binary.upTo_of_isFinite hpeak hpeak'
  rw [get_luminance_of]
  exact Binary.nonneg_mul (Colour.inRange_ofRgb hb hgamma' _).y hd

theorem Appearance.bounded_colour :
    Bounded (2 ^ 53) ((of c.gamma c.luminance words).a.get x y) ∧
      Bounded (2 ^ 53) ((of c.gamma c.luminance words).b.get x y) := by
  obtain ⟨hgamma, hgamma', -⟩ := Conditions.inRange_of_validate hv .gamma
  obtain ⟨b, hb⟩ := Binary.upTo_of_isFinite hgamma hgamma'
  rw [get_a_of, get_b_of]
  exact Colour.bounded_ofRgb hb hgamma' _ _

theorem Appearance.nonneg_level (l : Fin levelCount) :
    AtLeast 0 ((Pyramid.of Kernel.lowPass (of c.gamma c.luminance words).luminance).value l x y) :=
  nonneg_value (nonneg_luminance hv words) l x y

end Valid

namespace Viewing

/-- The mean of the levels that the eye is adapted to, before it is raised to the floor. -/
def meanLuminance (v : Viewing w h) (x : Fin w) (y : Fin h) : Float32 :=
  0.5 * (v.leftScales.value v.bands.adaptationLevel x y +
    v.rightScales.value v.bands.adaptationLevel x y)

theorem adaptation_eq_larger (v : Viewing w h) (x : Fin w) (y : Fin h) :
    v.adaptation x y = Binary.larger (v.meanLuminance x y) darkest := rfl

theorem darkest_le_adaptation (v : Viewing w h) (x : Fin w) (y : Fin h) :
    darkest ≤ v.adaptation x y := by
  rw [adaptation_eq_larger]
  exact Binary.le_larger _ darkest_pos.not_nan

theorem nonneg_meanLuminance {v : Viewing w h} {x : Fin w} {y : Fin h}
    (hl : ∀ l, AtLeast 0 (v.leftScales.value l x y))
    (hr : ∀ l, AtLeast 0 (v.rightScales.value l x y)) : AtLeast 0 (v.meanLuminance x y) := by
  have hhalf : UpTo (2 ^ (-1 : ℤ)) 0.5 := Binary.upTo_of_isUpTo (by decide +kernel)
  exact Binary.nonneg_scale hhalf (by decide +kernel)
    (Binary.atLeast_add (hl _) (hr _) Binary.Grid.zero)

end Viewing

namespace Pyramid

theorem forall_mem_levels_stored {α : Type} {P : α → Prop} {p : Pyramid α w h}
    (hp : ∀ l x y, P (p.value l x y)) : ∀ plane ∈ p.stored.levels, ∀ v ∈ plane, P v := by
  intro plane hplane
  simp only [stored, List.mem_toArray, List.mem_map] at hplane
  obtain ⟨q, hq, rfl⟩ := hplane
  obtain ⟨l, hl, rfl⟩ := List.mem_iff_getElem.mp hq
  exact Plane.forall_mem_stored.mpr (hp ⟨l, p.length_levels ▸ hl⟩)

end Pyramid

/-- Planes as they are stored, and a pyramid over them, that may be compared. -/
structure StoredAppearance.Usable (seen : StoredAppearance) (scales : StoredPyramid Float32) :
    Prop where
  luminance : ∀ v ∈ seen.luminance, IsAmount v
  finite_a : ∀ v ∈ seen.a, v.isFinite = true
  finite_b : ∀ v ∈ seen.b, v.isFinite = true
  levels : ∀ plane ∈ scales.levels, ∀ v ∈ plane, IsAmount v

namespace Bitmap

theorem stored_usable {c : Conditions} (hv : c.validate = .ok ()) {a : Bitmap}
    (ha : a.Addressable) :
    ∃ seen scales, Appearance.ofBitmap c.gamma c.luminance a = .ok seen ∧
      StoredPyramid.build Kernel.lowPass.stored seen.luminance seen.width seen.height =
        .ok scales ∧
      seen.Usable scales := by
  refine ⟨_, _, Appearance.ofBitmap_eq _ _ a ha, StoredPyramid.build_eq _ _ (a.pixelCount_lt ha),
    ?_⟩
  constructor
  case luminance =>
    exact Plane.forall_mem_stored.mpr fun x y =>
      isAmount_of_atLeast (Appearance.nonneg_luminance hv _ x y)
  case finite_a =>
    exact Plane.forall_mem_stored.mpr fun x y => (Appearance.bounded_colour hv _ x y).1.isFinite
  case finite_b =>
    exact Plane.forall_mem_stored.mpr fun x y => (Appearance.bounded_colour hv _ x y).2.isFinite
  case levels =>
    exact Pyramid.forall_mem_levels_stored fun l x y =>
      isAmount_of_atLeast (Appearance.nonneg_level hv _ x y l)

/-- Under valid conditions the luminances of a bitmap and all levels above them are amounts and its
colours are finite, as they are computed and as they are stored. The mean that the eye is adapted
to is an amount too, and the luminance it is adapted to is at least the floor. -/
theorem nothing_compared_is_nan_or_negative {c : Conditions} (hv : c.validate = .ok ()) :
    (∀ (a : Bitmap) (x : Fin a.width) (y : Fin a.height),
      let seen := Appearance.of c.gamma c.luminance a.picture.words
      IsAmount (seen.luminance.get x y) ∧
      (seen.a.get x y).isFinite = true ∧ (seen.b.get x y).isFinite = true ∧
      ∀ l, IsAmount ((Pyramid.of Kernel.lowPass seen.luminance).value l x y)) ∧
    (∀ a : Bitmap, a.Addressable →
      ∃ seen scales, Appearance.ofBitmap c.gamma c.luminance a = .ok seen ∧
        StoredPyramid.build Kernel.lowPass.stored seen.luminance seen.width seen.height =
          .ok scales ∧
        seen.Usable scales) ∧
    ∀ (w h : Nat) (a b : Bitmap) (ha : a.width = w ∧ a.height = h)
      (hb : b.width = w ∧ b.height = h) (x : Fin w) (y : Fin h),
      IsAmount ((seen c a b ha hb).meanLuminance x y) ∧
      IsAmount ((seen c a b ha hb).adaptation x y) ∧
      Viewing.darkest ≤ (seen c a b ha hb).adaptation x y := by
  refine ⟨?_, fun a ha => stored_usable hv ha, ?_⟩
  · intro a x y
    have hcolour := Appearance.bounded_colour hv a.picture.words x y
    exact ⟨isAmount_of_atLeast (Appearance.nonneg_luminance hv _ x y), hcolour.1.isFinite,
      hcolour.2.isFinite, fun l => isAmount_of_atLeast (Appearance.nonneg_level hv _ x y l)⟩
  · intro w h a b ha hb x y
    have hpos := (seen c a b ha hb).adaptation_pos x y
    exact ⟨isAmount_of_atLeast (Viewing.nonneg_meanLuminance (Appearance.nonneg_level hv _ x y)
        (Appearance.nonneg_level hv _ x y)),
      isAmount_of_atLeast (hpos.mono (by positivity)), Viewing.darkest_le_adaptation _ x y⟩

/-- A white pixel of the brightest display is infinitely bright, which is an amount. -/
theorem infinite_white_is_an_amount :
    dazzling.validate = .ok () ∧ whitePixel.Addressable ∧
      let seen := Appearance.of dazzling.gamma dazzling.luminance whitePixel.picture.words
      (∀ (x : Fin whitePixel.width) (y : Fin whitePixel.height),
        (seen.luminance.get x y).isInf = true ∧ IsAmount (seen.luminance.get x y) ∧
        ∀ l, IsAmount ((Pyramid.of Kernel.lowPass seen.luminance).value l x y)) ∧
      (∃ stored scales,
        Appearance.ofBitmap dazzling.gamma dazzling.luminance whitePixel = .ok stored ∧
        stored.Usable scales) ∧
      Viewing.darkest ≤
        (Bitmap.seen dazzling whitePixel whitePixel (w := 1) (h := 1) ⟨rfl, rfl⟩
          ⟨rfl, rfl⟩).adaptation 0 0 := by
  have hv : dazzling.validate = .ok () := by
    have hrange : dazzling.firstOutOfRange = none := by decide +kernel
    rw [Conditions.validate_eq, hrange]
  have hs : whitePixel.width = 1 ∧ whitePixel.height = 1 := ⟨rfl, rfl⟩
  have ha : whitePixel.Addressable := by
    rw [Addressable]
    decide
  have hinfinite : ∀ (x : Fin whitePixel.width) (y : Fin whitePixel.height),
      ((Appearance.of dazzling.gamma dazzling.luminance
        whitePixel.picture.words).luminance.get x y).isInf = true := by decide +kernel
  obtain ⟨hplanes, hstored, hadapted⟩ := nothing_compared_is_nan_or_negative hv
  obtain ⟨stored, scales, hseen, -, husable⟩ := hstored whitePixel ha
  exact ⟨hv, ha, fun x y => ⟨hinfinite x y, (hplanes whitePixel x y).1,
    (hplanes whitePixel x y).2.2.2⟩, ⟨stored, scales, hseen, husable⟩,
    (hadapted 1 1 whitePixel whitePixel hs hs 0 0).2.2⟩

end Bitmap

end VisibleDifference
