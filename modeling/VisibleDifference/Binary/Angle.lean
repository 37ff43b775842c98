import VisibleDifference.Binary.Value
import VisibleDifference.FixedPoint.Circle

/-!
# Viewing angles

The tangent of a double-precision angle and the extent of a flat screen that spans a given angle.
The extent is measured in units of one degree: it is `2 tan (θ / 2)`, taken for radians and turned
into degrees. All steps are in double precision; the result is rounded to single precision.
-/

namespace VisibleDifference.Binary

/-- Below `2 ^ -27` the tangent of an angle rounds to the angle. -/
def Value.tangent : Value → Value
  | .finite negative m e =>
      if e + m.log2 < -27 then .finite negative m e
      else
        let r := (m <<< (e + FixedPoint.circleBits).toNat) % FixedPoint.pi
        let c := FixedPoint.cosine r
        .ratio (negative != decide (c < 0)) (FixedPoint.sine r).natAbs c.natAbs 0
  | _ => .nan

def tangent (x : Float) : Float := (Value.ofDouble x).tangent.toDouble

def toRadians (x : Float) : Float := x * (3.141592653589793 / 180)

def toDegrees (x : Float) : Float := x * (180 / 3.141592653589793)

/-- The extent of a flat screen seen under an angle of `field` degrees. -/
def flatExtent (field : Float32) : Float32 :=
  narrow (toDegrees (2 * tangent (toRadians (widen field * 0.5))))

end VisibleDifference.Binary
