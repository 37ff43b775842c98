import VisibleDifference.Comparison.Verdict
import VisibleDifference.Proofs.Checked.Difference
import VisibleDifference.Proofs.Checked.Marking

/-!
# Comparing byte buffers

Two buffers are compared as stored: conditions and sizes are checked first, then rows are compared
word by word, or appearances, pyramids and map are computed. On buffers that can be addressed
nothing traps, and each comparison gives what it gives for the pictures, faults included.
-/

namespace VisibleDifference

open Checked

def StoredAppearance.checkedMeasure (c : Conditions) (w h : Nat) (left right : StoredAppearance) :
    Checked Finding := do
  let leftScales ← StoredPyramid.build Kernel.lowPass.stored left.luminance w h
  let rightScales ← StoredPyramid.build Kernel.lowPass.stored right.luminance w h
  let v ← StoredViewing.build left right leftScales rightScales c.fieldOfView
  v.checkedFind c.wantsMap

namespace Appearance

theorem checkedMeasure_stored (c : Conditions) {w h : Nat} (left right : Appearance w h)
    (hm : 4 * (w * h) < addressLimit) :
    StoredAppearance.checkedMeasure c w h left.stored right.stored =
      .ok ((Viewing.of left right c.fieldOfView).find c.wantsMap) := by
  have hl : left.stored.luminance = left.luminance.stored := rfl
  have hr : right.stored.luminance = right.luminance.stored := rfl
  rw [StoredAppearance.checkedMeasure, hl, StoredPyramid.build_eq _ _ hm, ok_bind, hr,
    StoredPyramid.build_eq _ _ hm, ok_bind, StoredViewing.build_eq, ok_bind,
    StoredViewing.checkedFind_eq _ (by omega)]

theorem stored_of_cast (gamma peak : Float32) {w h w' h' : Nat} (hw : w = w') (hh : h = h')
    (words : Plane UInt32 w h) :
    (of gamma peak (words.cast hw hh)).stored = (of gamma peak words).stored := by
  subst hw hh
  rfl

end Appearance

namespace Bitmap

variable (c : Conditions) (a b : Bitmap)

def checkedMeasure : Checked Finding := do
  let left ← Appearance.ofBitmap c.gamma c.luminance a
  let right ← Appearance.ofBitmap c.gamma c.luminance b
  left.checkedMeasure c a.width a.height right

theorem checkedMeasure_eq (ha : a.Addressable) (hb : b.Addressable)
    (hs : a.picture.SameSize b.picture) :
    checkedMeasure c a b = .ok (Picture.measure c a.picture b.picture hs) := by
  have hr : (Appearance.of c.gamma c.luminance (b.picture.alignedTo a.picture hs)).stored =
      (Appearance.of c.gamma c.luminance b.picture.words).stored :=
    Appearance.stored_of_cast _ _ hs.1 hs.2 _
  rw [checkedMeasure, Appearance.ofBitmap_eq _ _ a ha, ok_bind, Appearance.ofBitmap_eq _ _ b hb,
    ok_bind, ← hr]
  exact Appearance.checkedMeasure_stored c _ _ (a.pixelCount_lt ha)

def checkedSameRow (y : Nat) : Checked Bool := do
  let left ← a.checkedRow y
  let right ← b.checkedRow y
  return left == right

/-- Rows are compared until two of them differ. -/
def checkedIdentical : Checked Bool := do
  if a.width ≠ b.width ∨ a.height ≠ b.height then return false
  (List.range a.height).allM (checkedSameRow a b)

theorem checkedIdentical_eq (ha : a.Addressable) (hb : b.Addressable) :
    checkedIdentical a b = .ok (a.picture.identical b.picture) := by
  by_cases hs : a.picture.SameSize b.picture
  · have hh : b.height = a.height := hs.2
    have hrow (y : Nat) (hy : y ∈ List.range a.height) :
        checkedSameRow a b y = .ok (a.row? y == b.row? y) := by
      have hy := List.mem_range.mp hy
      have hy' : y < b.height := hh.symm ▸ hy
      rw [checkedSameRow, a.checkedRow_eq_ok ha ⟨y, hy⟩, ok_bind, b.checkedRow_eq_ok hb ⟨y, hy'⟩,
        ok_bind, a.row?_eq_some ⟨y, hy⟩, b.row?_eq_some ⟨y, hy'⟩]
      rfl
    rw [checkedIdentical, if_neg (by rw [sizes_ne_iff]; exact not_not_intro hs), allM_eq_ok _ hrow]
    congr 1
    rw [Bool.eq_iff_iff, identical_picture_iff, List.all_eq_true]
    simp only [beq_iff_eq, row?_eq_row?_iff a b hs, List.mem_range]
    refine ⟨fun he => ⟨hs, fun x y => ?_⟩, fun he y _ x => he.2 x y⟩
    by_cases hy : y < a.height
    · exact he y hy x
    · rw [a.word?_eq_none (by omega), b.word?_eq_none (by omega)]
  · rw [checkedIdentical, if_pos ((sizes_ne_iff a b).mpr hs), Picture.identical, dif_neg hs]
    rfl

/-- Conditions come before sizes. -/
def checkedPerceive : Checked (Except Fault Finding) :=
  match c.validate with
  | .error fault => .ok (.error fault)
  | .ok () => do
    if a.width ≠ b.width ∨ a.height ≠ b.height then
      return .error (.sizesDiffer a.width a.height b.width b.height)
    let finding ← checkedMeasure c a b
    return .ok finding

theorem checkedPerceive_eq (ha : a.Addressable) (hb : b.Addressable) :
    checkedPerceive c a b = .ok (Picture.perceive c a.picture b.picture) := by
  rw [checkedPerceive, Picture.perceive]
  cases c.validate with
  | error fault => rfl
  | ok _ =>
    simp only [sizes_ne_iff]
    by_cases hs : a.picture.SameSize b.picture
    · rw [if_neg (not_not_intro hs), checkedMeasure_eq c a b ha hb hs, ok_bind]
      simp only [dif_pos hs]
      rfl
    · rw [if_pos hs]
      simp only [dif_neg hs]
      rfl

/-- The clear map that goes with identical buffers, if a map is wanted. -/
def checkedClear : Checked (Option DifferenceMap) :=
  if c.wantsMap then do
    let entries ← size (a.width * a.height)
    let map ← StoredViewing.checkedMap a.width a.height (Array.replicate entries false)
    return some map
  else .ok none

theorem checkedClear_eq (ha : a.Addressable) :
    checkedClear c a = .ok (Picture.nothingFound c a.picture).map := by
  have hm := a.pixelCount_lt ha
  rw [pixelCount] at hm
  rw [checkedClear, Picture.nothingFound]
  cases c.wantsMap with
  | false => rfl
  | true =>
    rw [if_pos rfl, size_of_lt (by omega), ok_bind, ← Plane.stored_fill,
      StoredViewing.checkedMap_stored]
    rfl

def checkedCompare : Checked (Except Fault Verdict) :=
  match c.validate with
  | .error fault => .ok (.error fault)
  | .ok () => do
    if a.width ≠ b.width ∨ a.height ≠ b.height then
      return .error (.sizesDiffer a.width a.height b.width b.height)
    if ← checkedIdentical a b then
      let map ← checkedClear c a
      return .ok ⟨true, true, ⟨0, map⟩⟩
    let finding ← checkedMeasure c a b
    return .ok ⟨decide (finding.count < c.threshold), false, finding⟩

theorem checkedCompare_eq (ha : a.Addressable) (hb : b.Addressable) :
    checkedCompare c a b = .ok (Picture.compare c a.picture b.picture) := by
  rw [checkedCompare, Picture.compare]
  cases c.validate with
  | error fault => rfl
  | ok _ =>
    simp only [sizes_ne_iff]
    by_cases hs : a.picture.SameSize b.picture
    · rw [if_neg (not_not_intro hs), checkedIdentical_eq a b ha hb, ok_bind]
      simp only [dif_pos hs]
      cases a.picture.identical b.picture with
      | true =>
        rw [if_pos rfl, checkedClear_eq c a ha, ok_bind]
        rfl
      | false =>
        rw [if_neg Bool.false_ne_true, checkedMeasure_eq c a b ha hb hs, ok_bind]
        rfl
    · rw [if_pos hs]
      simp only [dif_neg hs]
      rfl

end Bitmap

end VisibleDifference
