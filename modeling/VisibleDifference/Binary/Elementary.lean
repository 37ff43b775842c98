import VisibleDifference.Binary.Value
import VisibleDifference.FixedPoint.Logarithm

/-!
# Elementary functions of single precision

Powers, exponentials, decimal logarithms and cube roots. A finite argument is read exactly, the
function is evaluated in fixed point, and the result is rounded once. Zeros, infinities and NaN
follow the rules of IEEE 754 for each function.
-/

namespace VisibleDifference.Binary

namespace Value

/-- The binary logarithm of `m * 2 ^ e`, in fixed point. -/
def logOf (m : Nat) (e : Int) : Int := FixedPoint.log2 m + e * FixedPoint.one

/-- Exponents beyond this size overflow or underflow every result. -/
def exponentLimit : Int := 200 * FixedPoint.one

/-- `± 2 ^ t` for a fixed-point `t`. The fraction is rounded to 72 bits, so that a power with few
bits comes out exactly. -/
def powerOfTwo (negative : Bool) (t : Int) : Value :=
  let t := max (-exponentLimit) (min exponentLimit t)
  let fraction := FixedPoint.exp2 (t % FixedPoint.one).toNat
  finite negative ((fraction + 1 <<< 23) >>> 24) (t / FixedPoint.one - 72)

/-- `n * 2 ^ e`, rounded down. -/
def shifted (n e : Int) : Int :=
  if 0 ≤ e then n * (1 <<< e.toNat : Nat) else n >>> (-e).toNat

def isInteger : Value → Bool
  | finite _ m e => 0 ≤ e || m % (1 <<< (-e).toNat) == 0
  | _ => false

def isOddInteger : Value → Bool
  | finite _ m e => e ≤ 0 && m % (1 <<< (-e).toNat) == 0 && (m >>> (-e).toNat) % 2 == 1
  | _ => false

/-- How `m * 2 ^ e` compares with one. -/
def compareOne (m : Nat) (e : Int) : Ordering :=
  if 0 < e then compare (m <<< e.toNat) 1 else compare m (1 <<< (-e).toNat)

/-- How the magnitude of a value compares with one. -/
def magnitudeToOne : Value → Ordering
  | finite _ m e => compareOne m e
  | _ => .gt

def isOne : Value → Bool
  | finite negative m e => !negative && compareOne m e == .eq
  | _ => false

def isZero : Value → Bool
  | finite _ m _ => m == 0
  | _ => false

/-- `x` to the power of an infinity. -/
def infinitePower (x : Value) (negative : Bool) : Value :=
  match x.magnitudeToOne with
  | .eq => one
  | .gt => if negative then zero false else infinite false
  | .lt => if negative then infinite false else zero false

/-- A power that is zero if `vanishes` and infinite otherwise. -/
def extremePower (negative vanishes : Bool) : Value :=
  if vanishes then zero negative else infinite negative

/-- The sign of a power is that of its base if the exponent is an odd integer. -/
def power (x y : Value) : Value :=
  if y.isZero then one
  else match x, y with
    | nan, _ => nan
    | x, nan => if x.isOne then one else nan
    | x, infinite negative => x.infinitePower negative
    | infinite s, finite t _ _ => extremePower (s && y.isOddInteger) t
    | finite s m e, finite t n f =>
        let negative := s && y.isOddInteger
        if m = 0 then extremePower negative (!t)
        else if s && !y.isInteger then nan
        else powerOfTwo negative (shifted (signedNat t n * logOf m e) f)

/-- The natural exponential. -/
def exponential : Value → Value
  | nan => nan
  | infinite negative => extremePower false negative
  | finite s m e =>
      let scaled := shifted (signedNat s m) (e + 2 * FixedPoint.bits)
      powerOfTwo false (scaled / (2 * FixedPoint.halfLogTwo))

/-- The decimal logarithm. -/
def log10 : Value → Value
  | nan => nan
  | infinite negative => if negative then nan else infinite false
  | finite negative m e =>
      if m = 0 then infinite true
      else if negative then nan
      else
        let l := logOf m e
        ratio (decide (l < 0)) l.natAbs (FixedPoint.log2 10) 0

/-- The integer cube root of a number of at most `3 * k` bits, digit by digit. -/
def rootBits (n : Nat) : Nat → Nat
  | 0 => 0
  | k + 1 =>
      let r := 2 * rootBits (n >>> 3) k
      if (r + 1) * (r + 1) * (r + 1) ≤ n then r + 1 else r

/-- The mantissa is widened to at least 84 bits, so that the root has more bits than a result; one
more bit is set if the root is not exact. -/
def cubeRoot : Value → Value
  | finite negative m e =>
      let shift := 84 + (e % 3).toNat
      let n := m <<< shift
      let r := rootBits n (n.log2 / 3 + 1)
      finite negative (2 * r + (if r * r * r = n then 0 else 1)) ((e - shift) / 3 - 1)
  | v => v

end Value

/-- `x ^ y`. -/
def power (x y : Float32) : Float32 := ((Value.ofSingle x).power (.ofSingle y)).toSingle

def exponential (x : Float32) : Float32 := (Value.ofSingle x).exponential.toSingle

def log10 (x : Float32) : Float32 := (Value.ofSingle x).log10.toSingle

def cubeRoot (x : Float32) : Float32 := (Value.ofSingle x).cubeRoot.toSingle

end VisibleDifference.Binary
