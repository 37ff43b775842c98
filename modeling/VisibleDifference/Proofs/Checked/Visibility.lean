import VisibleDifference.Comparison.Visibility
import VisibleDifference.Proofs.Checked.Bands
import VisibleDifference.Proofs.Checked.Colours
import VisibleDifference.Proofs.Checked.Pyramids

/-!
# Visible differences of stored pictures

Two stored pictures and their pyramids are put together once their sizes have been checked. The
contrasts around a pixel are written to an array and added up, then weighed, and the thresholds
compared as they are for the pictures. For each pixel of pictures that can be addressed nothing
traps, whatever the level that the eye is adapted to, and the answer is `Viewing.differs`.
-/

namespace VisibleDifference

open Checked

structure StoredViewing where
  left : StoredAppearance
  right : StoredAppearance
  leftScales : StoredPyramid Float32
  rightScales : StoredPyramid Float32
  bands : StoredBands

def Viewing.stored {w h : Nat} (v : Viewing w h) : StoredViewing :=
  ⟨v.left.stored, v.right.stored, v.leftScales.stored, v.rightScales.stored, v.bands.stored⟩

namespace StoredViewing

variable {w h : Nat}

def build (left right : StoredAppearance) (leftScales rightScales : StoredPyramid Float32)
    (fieldOfView : Float32) : Checked StoredViewing := do
  let extent := (leftScales.width, leftScales.height)
  require (extent = (rightScales.width, rightScales.height))
  require (extent = (left.width, left.height))
  require (extent = (right.width, right.height))
  let bands ← StoredBands.build leftScales.width (Binary.flatExtent fieldOfView)
  return ⟨left, right, leftScales, rightScales, bands⟩

theorem build_eq (left right : Appearance w h) (fieldOfView : Float32) :
    build left.stored right.stored (Pyramid.of Kernel.lowPass left.luminance).stored
        (Pyramid.of Kernel.lowPass right.luminance).stored fieldOfView =
      .ok (Viewing.of left right fieldOfView).stored := by
  have hb : StoredBands.build w (Binary.flatExtent fieldOfView) =
      .ok (ViewingBands.of w fieldOfView).stored := StoredBands.build_eq _ _
  simp only [build, Pyramid.stored, Appearance.stored, require_of, ok_bind, hb]
  rfl

/-- The contrast of band `i` around the pixel at column `x` of row `y`. -/
def checkedContrast (v : StoredViewing) (x y i : Nat) : Checked Float32 := do
  let leftOwn ← v.leftScales.checkedValue x y i
  let leftNext ← v.leftScales.checkedValue x y (← size (i + 1))
  let rightOwn ← v.rightScales.checkedValue x y i
  let rightNext ← v.rightScales.checkedValue x y (← size (i + 1))
  let leftSurround ← v.leftScales.checkedValue x y (← size (i + 2))
  let rightSurround ← v.rightScales.checkedValue x y (← size (i + 2))
  return Binary.larger (leftOwn - leftNext).abs (rightOwn - rightNext).abs /
    Binary.larger (Binary.larger leftSurround.abs rightSurround.abs) Viewing.darkest

theorem checkedContrast_eq (v : Viewing w h) (hm : w * h < addressLimit) (x : Fin w) (y : Fin h)
    (i : Fin bandCount) : v.stored.checkedContrast x.val y.val i.val =
      .ok (bandContrast Viewing.darkest v.leftScales v.rightScales x y i) := by
  have hi : i.val + 2 < addressLimit := by
    have : bandCount + 2 < addressLimit := by decide
    omega
  have hown (p : Pyramid Float32 w h) :
      p.stored.checkedValue x.val y.val i.val = .ok (p.value (ownLevel i) x y) :=
    StoredPyramid.checkedValue_eq p hm (ownLevel i) x y
  have hnext (p : Pyramid Float32 w h) :
      p.stored.checkedValue x.val y.val (i.val + 1) = .ok (p.value (bandLevel i 1) x y) :=
    StoredPyramid.checkedValue_eq p hm (bandLevel i 1) x y
  have hsurround (p : Pyramid Float32 w h) :
      p.stored.checkedValue x.val y.val (i.val + 2) = .ok (p.value (bandLevel i 2) x y) :=
    StoredPyramid.checkedValue_eq p hm (bandLevel i 2) x y
  rw [checkedContrast, size_of_lt (by omega), size_of_lt hi]
  simp only [ok_bind, Viewing.stored, hown, hnext, hsurround]
  rfl

def addContrast (v : StoredViewing) (x y : Nat) (s : Array Float32 × Float32) (i : Nat) :
    Checked (Array Float32 × Float32) := do
  let contrast ← v.checkedContrast x y i
  let contrasts ← write s.1 i contrast
  return (contrasts, s.2 + contrast)

/-- The contrasts written so far, and their sum. -/
def contrastsDone (done : List Float32) : Array Float32 × Float32 :=
  (filled bandCount 0 id done, done.foldl (· + ·) 0)

theorem addContrast_contrastsDone (v : Viewing w h) (hm : w * h < addressLimit) (x : Fin w)
    (y : Fin h) {i : Nat} (hi : i < bandCount) :
    v.stored.addContrast x.val y.val (contrastsDone ((v.contrasts x y).toList.take i)) i =
      .ok (contrastsDone ((v.contrasts x y).toList.take (i + 1))) := by
  have hl : ((v.contrasts x y).toList.take i).length = i := by simp [hi.le]
  have hc : v.stored.checkedContrast x.val y.val i = .ok (v.contrasts x y)[i] := by
    rw [checkedContrast_eq v hm x y ⟨i, hi⟩, Viewing.contrasts, Vector.getElem_ofFn]
  have hs : (v.contrasts x y).toList.take (i + 1) =
      (v.contrasts x y).toList.take i ++ [(v.contrasts x y)[i]] := by
    simp [List.take_add_one, hi]
  have hw := write_filled 0 id (v.contrasts x y)[i] (hl.symm ▸ hi)
  rw [hl, id_eq] at hw
  rw [addContrast, hc, ok_bind, contrastsDone, hw, ok_bind, hs, contrastsDone, List.foldl_append]
  rfl

def checkedContrasts (v : StoredViewing) (x y : Nat) : Checked (Array Float32 × Float32) :=
  forEach bandCount (Array.replicate bandCount 0, 0) (v.addContrast x y)

theorem checkedContrasts_eq (v : Viewing w h) (hm : w * h < addressLimit) (x : Fin w)
    (y : Fin h) : v.stored.checkedContrasts x.val y.val =
      .ok ((v.contrasts x y).toArray, (v.contrasts x y).foldl (· + ·) 0) := by
  have hl : (v.contrasts x y).toList.length = bandCount := Vector.length_toList
  have hloop := forEach_eq _ bandCount fun i hi => addContrast_contrastsDone v hm x y hi
  rw [List.take_zero, List.take_of_length_le hl.le] at hloop
  simp only [contrastsDone, filled_nil, filled_of_length_eq _ _ hl, List.map_id,
    Vector.foldl_toList] at hloop
  exact hloop

def checkedElevation (bands : StoredBands) (contrasts : Array Float32) (total : Float32)
    (adaptation : Float32) : Checked Float32 :=
  forEach bandCount 0 fun sum i => do
    let contrast ← read contrasts i
    let frequency ← read bands.frequency i
    let weight ← read bands.weight i
    let response := ContrastResponse.ofLuminance adaptation
    let mask := masking (contrast * response.sensitivity frequency)
    return sum + contrast * weight * mask / total

theorem checkedElevation_eq (bands : ViewingBands) (contrasts : Vector Float32 bandCount)
    (adaptation : Float32) :
    checkedElevation bands.stored contrasts.toArray
        (Binary.larger (contrasts.foldl (· + ·) 0) Viewing.darkest) adaptation =
      .ok (Viewing.elevation bands contrasts adaptation) := by
  have hread {n : Nat} (f : Vector Float32 n) (i : Fin n) :
      read f.toArray i.val = .ok (f.get i) := read_of_lt (f.size_toArray.symm ▸ i.isLt)
  rw [checkedElevation, Viewing.elevation]
  apply forEach_foldl
  intro i sum
  have hf : read bands.stored.frequency i.val = .ok (bands.frequency.get (ownLevel i)) :=
    hread bands.frequency (ownLevel i)
  have hw : read bands.stored.weight i.val = .ok (bands.weight.get i) := hread bands.weight i
  rw [hread contrasts i, ok_bind, hf, ok_bind, hw, ok_bind]
  rfl

def checkedDiffers (v : StoredViewing) (x y : Nat) : Checked Bool := do
  let (contrasts, sum) ← v.checkedContrasts x y
  let total := Binary.larger sum Viewing.darkest
  let leftMean ← v.leftScales.checkedValue x y v.bands.adaptationLevel
  let rightMean ← v.rightScales.checkedValue x y v.bands.adaptationLevel
  let adaptation := Binary.larger (0.5 * (leftMean + rightMean)) Viewing.darkest
  let elevation ← checkedElevation v.bands contrasts total adaptation
  let factor := Viewing.clampFactor elevation
  let leftOwn ← v.leftScales.checkedValue x y 0
  let rightOwn ← v.rightScales.checkedValue x y 0
  if (leftOwn - rightOwn).abs > factor * visibleThreshold adaptation then return true
  let i ← size ((← size (y * v.leftScales.width)) + x)
  let da := (← read v.left.a i) - (← read v.right.a i)
  let db := (← read v.left.b i) - (← read v.right.b i)
  return !decide (Binary.mulAdd da da (db * db) * Viewing.colourScale adaptation ≤ factor)

theorem checkedDiffers_eq (v : Viewing w h) (hm : w * h < addressLimit) (x : Fin w) (y : Fin h) :
    v.stored.checkedDiffers x.val y.val = .ok (v.differs x y) := by
  have hi := Plane.index_lt x y
  have hmean (p : Pyramid Float32 w h) : p.stored.checkedValue x.val y.val
      v.bands.stored.adaptationLevel = .ok (p.value v.bands.adaptationLevel x y) :=
    StoredPyramid.checkedValue_eq p hm v.bands.adaptationLevel x y
  have hown (p : Pyramid Float32 w h) :
      p.stored.checkedValue x.val y.val 0 = .ok (p.value 0 x y) :=
    StoredPyramid.checkedValue_eq p hm 0 x y
  have hrow : size (y.val * w) = .ok (y.val * w) := size_of_lt (by omega)
  have hplace : size (y.val * w + x.val) = .ok (y.val * w + x.val) := size_of_lt (by omega)
  have hread (p : Plane Float32 w h) :
      Checked.read p.stored (y.val * w + x.val) = .ok (p.get x y) := p.read_stored x y
  have hw : v.leftScales.stored.width = w := rfl
  have he := checkedElevation_eq v.bands (v.contrasts x y) (v.adaptation x y)
  rw [Viewing.adaptation] at he
  rw [checkedDiffers, checkedContrasts_eq v hm]
  simp only [ok_bind, Viewing.stored, Appearance.stored, hmean, he, hown, hw, hrow, hplace, hread,
    pure_eq_ok]
  rw [← apply_ite]
  rfl

end StoredViewing

end VisibleDifference
