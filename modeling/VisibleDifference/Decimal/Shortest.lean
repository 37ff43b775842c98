import VisibleDifference.Binary.Value

/-!
# Shortest decimal text

A single-precision number is written with the fewest significant digits that read back as the same
number, always positionally and without a trailing point. The digits are a multiple of the largest
power of ten that has a multiple among the reals rounding to the number; of two such multiples the
nearer is taken, of two equally near ones the larger.
-/

namespace VisibleDifference.Decimal

/-- The reals that round to `m * 2 ^ (e + 2)`, in units of `2 ^ e`. -/
structure RoundingInterval where
  low : Nat
  value : Nat
  high : Nat
  e : Int
  closed : Bool

/-- Numbers below a power of two are twice as dense as those above it, down to exponent `-149`. -/
def RoundingInterval.of (m : Nat) (e : Int) : RoundingInterval where
  low := if m = 0x800000 ∧ -149 < e then 4 * m - 1 else 4 * m - 2
  value := 4 * m
  high := 4 * m + 2
  e := e - 2
  closed := m % 2 == 0

namespace RoundingInterval

/-- Whether `c / scale` lies between the ends, both counted in the same units. -/
def holds (i : RoundingInterval) (unit c : Nat) : Bool :=
  if i.closed then i.low * unit ≤ c && c ≤ i.high * unit
  else i.low * unit < c && c < i.high * unit

/-- The multiple of `10 ^ k` in the interval that is nearest to the value, divided by `10 ^ k`. -/
def nearestMultiple (i : RoundingInterval) (k : Int) : Option Nat :=
  let unit := Nat.pow 10 (-k).toNat <<< i.e.toNat
  let step := Nat.pow 10 k.toNat <<< (-i.e).toNat
  let below := i.value * unit / step
  match i.holds unit (below * step), i.holds unit ((below + 1) * step) with
  | false, false => none
  | true, false => some below
  | false, true => some (below + 1)
  | true, true =>
      some (if i.value * unit - below * step < (below + 1) * step - i.value * unit
        then below else below + 1)

/-- Powers of ten from above the largest single-precision number to below the smallest. -/
def powers : List Int := (List.range 86).map fun (n : Nat) => (39 : Int) - n

/-- A decimal `c * 10 ^ k` as the pair `(c, k)`. -/
def shortest (i : RoundingInterval) : Nat × Int :=
  (powers.findSome? fun k => (i.nearestMultiple k).map (·, k)).getD (0, 0)

end RoundingInterval

/-- `c * 10 ^ k` without an exponent. -/
def positional (c : Nat) (k : Int) : List Char :=
  let digits := Nat.toDigits 10 c
  if 0 ≤ k then digits ++ List.replicate k.toNat '0'
  else
    let places := (-k).toNat
    let padded := List.replicate (places + 1 - digits.length) '0' ++ digits
    padded.take (padded.length - places) ++ '.' :: padded.drop (padded.length - places)

def signText (negative : Bool) : String := if negative then "-" else ""

def text (x : Float32) : String :=
  match Binary.Value.ofSingle x with
  | .nan => "NaN"
  | .infinite negative => signText negative ++ "inf"
  | .finite negative m e =>
      if m = 0 then signText negative ++ "0"
      else
        let (c, k) := (RoundingInterval.of m e).shortest
        signText negative ++ String.ofList (positional c k)

end VisibleDifference.Decimal
