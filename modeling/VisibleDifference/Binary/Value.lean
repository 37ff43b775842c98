import VisibleDifference.Binary.Rounding

/-!
# Exact values

What single- and double-precision numbers stand for: NaN, an infinity, or `± m * 2 ^ e` with any
natural `m`, so that a zero has a sign. Sums and products of values are exact. A fused multiply-add
and a change of precision compute with values and round once, when the result is encoded.
-/

namespace VisibleDifference.Binary

inductive Value where
  | nan
  | infinite (negative : Bool)
  /-- `± m * 2 ^ e`. -/
  | finite (negative : Bool) (m : Nat) (e : Int)
deriving DecidableEq, Repr

namespace Value

def ofSingle (x : Float32) : Value :=
  let b := x.toBits
  let negative := b >>> 31 == 1
  let exponent := (b >>> 23) &&& 0xff
  let fraction := b &&& 0x7fffff
  if exponent == 0xff then if fraction == 0 then infinite negative else nan
  else if exponent == 0 then finite negative fraction.toNat (-149)
  else finite negative (fraction + 0x800000).toNat (exponent.toNat - 150)

def ofDouble (x : Float) : Value :=
  let b := x.toBits
  let negative := b >>> 63 == 1
  let exponent := (b >>> 52) &&& 0x7ff
  let fraction := b &&& 0xfffffffffffff
  if exponent == 0x7ff then if fraction == 0 then infinite negative else nan
  else if exponent == 0 then finite negative fraction.toNat (-1074)
  else finite negative (fraction + 0x10000000000000).toNat (exponent.toNat - 1075)

def toSingle (v : Value) : Float32 :=
  let signed (negative : Bool) (n : Nat) : Float32 :=
    .ofBits (if negative then 0x80000000 + .ofNat n else .ofNat n)
  match v with
  | nan => .ofBits 0x7fc00000
  | infinite negative => signed negative single.infinityBits
  | finite negative m e => signed negative (nearestBits single m e)

def toDouble (v : Value) : Float :=
  let signed (negative : Bool) (n : Nat) : Float :=
    .ofBits (if negative then 0x8000000000000000 + .ofNat n else .ofNat n)
  match v with
  | nan => .ofBits 0x7ff8000000000000
  | infinite negative => signed negative double.infinityBits
  | finite negative m e => signed negative (nearestBits double m e)

def one : Value := finite false 1 0

def zero (negative : Bool) : Value := finite negative 0 0

def mul : Value → Value → Value
  | nan, _ => nan
  | _, nan => nan
  | infinite s, infinite t => infinite (s != t)
  | infinite s, finite t m _ => if m = 0 then nan else infinite (s != t)
  | finite s m _, infinite t => if m = 0 then nan else infinite (s != t)
  | finite s m e, finite t n f => finite (s != t) (m * n) (e + f)

def signedNat (negative : Bool) (n : Nat) : Int := if negative then -(n : Int) else n

/-- A sum of zero is negative only if both terms are. -/
def add : Value → Value → Value
  | nan, _ => nan
  | _, nan => nan
  | infinite s, infinite t => if s = t then infinite s else nan
  | infinite s, finite _ _ _ => infinite s
  | finite _ _ _, infinite t => infinite t
  | finite s m e, finite t n f =>
      let g := min e f
      let sum := signedNat s (m <<< (e - g).toNat) + signedNat t (n <<< (f - g).toNat)
      if sum = 0 then finite (s && t) 0 g else finite (decide (sum < 0)) sum.natAbs g

/-- `± num / den * 2 ^ e` to 64 bits, with one more bit that is set if the quotient is not exact. -/
def ratio (negative : Bool) (num den : Nat) (e : Int) : Value :=
  let shift := 64 + den.log2
  let n := num <<< shift
  finite negative (2 * (n / den) + (if n % den = 0 then 0 else 1)) (e - shift - 1)

end Value

/-- `a * b + c`, rounded once. -/
def mulAdd (a b c : Float32) : Float32 :=
  (((Value.ofSingle a).mul (.ofSingle b)).add (.ofSingle c)).toSingle

def widen (x : Float32) : Float := (Value.ofSingle x).toDouble

def narrow (x : Float) : Float32 := (Value.ofDouble x).toSingle

/-- The larger operand; a NaN gives way to the other operand. -/
def larger (x y : Float32) : Float32 :=
  if x.isNaN then y else if y.isNaN then x else if x < y then y else x

/-- The smaller operand; a NaN gives way to the other operand. -/
def smaller (x y : Float32) : Float32 :=
  if x.isNaN then y else if y.isNaN then x else if y < x then y else x

end VisibleDifference.Binary
