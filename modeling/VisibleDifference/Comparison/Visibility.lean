import VisibleDifference.Pyramid.Contrast
import VisibleDifference.Vision.Appearance
import VisibleDifference.Vision.Bands

/-!
# Visible differences

Whether a pixel looks different in two pictures of one size. The contrasts around the pixel raise
the thresholds by a common factor between one and ten. The pixel differs if its luminances are
further apart than the raised threshold at the luminance the eye is adapted to, or its colours
further than the factor itself. In the dark, where colours fade, their distance is scaled down.
-/

namespace VisibleDifference

/-- Two pictures as they are seen under one angle. -/
structure Viewing (w h : Nat) where
  left : Appearance w h
  right : Appearance w h
  leftScales : Pyramid Float32 w h
  rightScales : Pyramid Float32 w h
  bands : ViewingBands

namespace Viewing

variable {w h : Nat}

def of (left right : Appearance w h) (fieldOfView : Float32) : Viewing w h where
  left
  right
  leftScales := Pyramid.of Kernel.lowPass left.luminance
  rightScales := Pyramid.of Kernel.lowPass right.luminance
  bands := ViewingBands.of w fieldOfView

/-- The least luminance that contrast and adaptation reckon with. -/
def darkest : Float32 := 1e-5

/-- Below this luminance the eye loses colours. -/
def dusk : Float32 := 10

def contrasts (v : Viewing w h) (x : Fin w) (y : Fin h) : Vector Float32 bandCount :=
  Vector.ofFn (bandContrast darkest v.leftScales v.rightScales x y)

def adaptation (v : Viewing w h) (x : Fin w) (y : Fin h) : Float32 :=
  let l := v.bands.adaptationLevel
  Binary.larger (0.5 * (v.leftScales.value l x y + v.rightScales.value l x y)) darkest

/-- The mean of weight times masking over the bands, each counted by its contrast. -/
def elevation (bands : ViewingBands) (contrasts : Vector Float32 bandCount)
    (adaptation : Float32) : Float32 :=
  let total := Binary.larger (contrasts.foldl (· + ·) 0) darkest
  let response := ContrastResponse.ofLuminance adaptation
  (List.finRange bandCount).foldl
    (fun sum i =>
      let contrast := contrasts.get i
      let mask := masking (contrast * response.sensitivity (bands.frequency.get (ownLevel i)))
      sum + contrast * bands.weight.get i * mask / total)
    0

/-- A NaN is left alone. -/
def clampFactor (f : Float32) : Float32 := if f < 1 then 1 else if f > 10 then 10 else f

/-- The factor by which both thresholds are raised. -/
def factor (v : Viewing w h) (x : Fin w) (y : Fin h) : Float32 :=
  clampFactor (elevation v.bands (v.contrasts x y) (v.adaptation x y))

def luminanceDistance (v : Viewing w h) (x : Fin w) (y : Fin h) : Float32 :=
  (v.leftScales.value 0 x y - v.rightScales.value 0 x y).abs

/-- How much of a colour distance is seen. -/
def colourScale (adaptation : Float32) : Float32 :=
  if adaptation < dusk then
    let s := adaptation / dusk
    s * s
  else 1

def colourDistance (v : Viewing w h) (x : Fin w) (y : Fin h) : Float32 :=
  let da := v.left.a.get x y - v.right.a.get x y
  let db := v.left.b.get x y - v.right.b.get x y
  Binary.mulAdd da da (db * db) * colourScale (v.adaptation x y)

/-- Whether the pixel looks different. -/
def differs (v : Viewing w h) (x : Fin w) (y : Fin h) : Bool :=
  let f := v.factor x y
  if v.luminanceDistance x y > f * visibleThreshold (v.adaptation x y) then true
  else !decide (v.colourDistance x y ≤ f)

end Viewing

end VisibleDifference
