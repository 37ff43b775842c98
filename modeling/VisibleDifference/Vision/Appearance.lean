import VisibleDifference.Binary.Elementary
import VisibleDifference.Grid.Plane
import VisibleDifference.Picture.Pixel

/-!
# Appearance

What a display shows for a plane of pixels: absolute luminance, and the red-green and blue-yellow
coordinates of CIE L*a*b*. Pixels are Adobe RGB (1998) with a D65 white point, decoded with the
display's gamma.
-/

namespace VisibleDifference

structure Colour where
  /-- In candela per square metre. -/
  luminance : Float32
  /-- Red against green. -/
  a : Float32
  /-- Blue against yellow. -/
  b : Float32

/-- Tristimulus values relative to the luminance of white. -/
structure Tristimulus where
  x : Float32
  y : Float32
  z : Float32

/-- The light that a display of the given gamma emits for each channel value, one at the most. -/
def displayCurve (gamma : Float32) : Vector Float32 256 :=
  Vector.ofFn fun v => Binary.power (Float32.ofNat v / 255) gamma

def Tristimulus.ofLight (r g b : Float32) : Tristimulus where
  x := r * 0.5767 + g * 0.185556 + b * 0.188212
  y := r * 0.297361 + g * 0.627355 + b * 0.0752847
  z := r * 0.0270328 + g * 0.0706879 + b * 0.991248

/-- The tristimulus values of full red, green and blue light together. -/
def Tristimulus.white : Tristimulus := ⟨0.950468, 1.0000007, 1.0889687⟩

namespace Colour

/-- The compressive response to a tristimulus value relative to white: a cube root with a straight
piece near black. -/
def response (ratio : Float32) : Float32 :=
  if ratio > 216 / 24389 then Binary.cubeRoot ratio
  else Binary.mulAdd (24389 / 27) ratio 16 / 116

def ofTristimulus (peak : Float32) (t : Tristimulus) : Colour :=
  let fx := response (t.x / Tristimulus.white.x)
  let fy := response (t.y / Tristimulus.white.y)
  let fz := response (t.z / Tristimulus.white.z)
  { luminance := t.y * peak
    a := 500 * (fx - fy)
    b := 200 * (fy - fz) }

/-- The colour that a display with the given curve and white luminance shows for `c`. -/
def ofRgb (curve : Vector Float32 256) (peak : Float32) (c : Rgb) : Colour :=
  ofTristimulus peak
    (.ofLight (curve.get ⟨c.red.toNat, c.red.toNat_lt⟩)
      (curve.get ⟨c.green.toNat, c.green.toNat_lt⟩)
      (curve.get ⟨c.blue.toNat, c.blue.toNat_lt⟩))

end Colour

/-- A picture as it is seen. -/
structure Appearance (width height : Nat) where
  luminance : Plane Float32 width height
  a : Plane Float32 width height
  b : Plane Float32 width height

def Appearance.of {w h : Nat} (gamma peak : Float32) (words : Plane UInt32 w h) : Appearance w h :=
  let curve := displayCurve gamma
  let colours := words.map fun word => Colour.ofRgb curve peak (straightColour word)
  ⟨colours.map Colour.luminance, colours.map Colour.a, colours.map Colour.b⟩

end VisibleDifference
