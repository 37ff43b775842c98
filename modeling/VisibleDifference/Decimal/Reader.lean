import VisibleDifference.Binary.Value

/-!
# Numbers in command-line text

A real number is an optional sign followed by `inf`, `infinity` or `nan` in any case, or by decimal
digits with at most one point and at most one exponent; there is at least one digit before the
exponent and one in it. It is read as the nearest single-precision number. A count is an optional
plus sign and decimal digits, and must fit 64 bits.
-/

namespace VisibleDifference.Decimal

inductive NumeralFault where
  | empty
  | malformed
  | tooLarge
deriving DecidableEq, Repr

def digitValue (c : Char) : Nat := c.toNat - '0'.toNat

def natOfDigits (cs : List Char) : Nat := cs.foldl (fun n c => 10 * n + digitValue c) 0

/-- The exponent part of a numeral: nothing, or `e`, an optional sign and digits. -/
def readExponent : List Char → Option Int
  | [] => some 0
  | c :: cs =>
      if c = 'e' ∨ c = 'E' then
        let (negative, digits) : Bool × List Char := match cs with
          | '-' :: ds => (true, ds)
          | '+' :: ds => (false, ds)
          | ds => (false, ds)
        if digits ≠ [] ∧ digits.all Char.isDigit then
          let n := natOfDigits digits
          some (if negative then -(n : Int) else n)
        else none
      else none

/-- The unsigned numeral `m * 10 ^ k` as the pair `(m, k)`. -/
def readUnsigned (cs : List Char) : Option (Nat × Int) :=
  let (whole, rest) := cs.span Char.isDigit
  let (fraction, rest) := match rest with
    | '.' :: rest => rest.span Char.isDigit
    | rest => ([], rest)
  if whole = [] ∧ fraction = [] then none
  else (readExponent rest).map fun k => (natOfDigits (whole ++ fraction), k - fraction.length)

/-- `m * 10 ^ k`, rounded once. -/
def scientific (m : Nat) (k : Int) : Float32 := Float32.ofScientific m (decide (k < 0)) k.natAbs

def notANumber : Float32 := Binary.Value.nan.toSingle

def infinite : Float32 := (Binary.Value.infinite false).toSingle

def readMagnitude (cs : List Char) : Option Float32 :=
  let word := cs.map Char.toLower
  if word = "nan".toList then some notANumber
  else if word = "inf".toList ∨ word = "infinity".toList then some infinite
  else (readUnsigned cs).map fun (m, k) => scientific m k

def readSigned : List Char → Option Float32
  | '-' :: cs => (readMagnitude cs).map fun x => -x
  | '+' :: cs => readMagnitude cs
  | cs => readMagnitude cs

def readReal (s : String) : Except NumeralFault Float32 :=
  if s = "" then .error .empty
  else match readSigned s.toList with
    | some x => .ok x
    | none => .error .malformed

def countLimit : Nat := 1 <<< 64

/-- The digits of a count, each in turn: a bad digit or an overflow stops at its place. -/
def readDigits : Nat → List Char → Except NumeralFault Nat
  | n, [] => .ok n
  | n, c :: cs =>
      if ¬ c.isDigit then .error .malformed
      else
        let n := 10 * n + digitValue c
        if n < countLimit then readDigits n cs else .error .tooLarge

def readCount (s : String) : Except NumeralFault Nat :=
  match s.toList with
  | [] => .error .empty
  | ['+'] => .error .malformed
  | '+' :: cs => readDigits 0 cs
  | cs => readDigits 0 cs

end VisibleDifference.Decimal
