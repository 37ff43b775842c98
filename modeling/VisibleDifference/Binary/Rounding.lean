/-!
# Rounding to binary formats

The bits of the number of a format that is nearest to `n * 2 ^ e`, with ties to even. Bits of
non-negative numbers are ordered as the numbers are, and consecutive numbers have consecutive bits;
so a mantissa that is rounded up to a power of two carries into the exponent by itself, and all
that lies past the last finite number is cut to the bits of infinity.
-/

namespace VisibleDifference.Binary

structure Width where
  /-- Stored bits of the mantissa. -/
  fractionBits : Nat
  /-- The least mantissa of a normal number. -/
  hiddenBit : Nat
  /-- The exponent of the least positive number. -/
  least : Int
  infinityBits : Nat

def single : Width := ⟨23, 0x800000, -149, 0x7f800000⟩

def double : Width := ⟨52, 0x10000000000000, -1074, 0x7ff0000000000000⟩

/-- `n / 2 ^ s` rounded to the nearest integer, a tie to the even one. -/
def roundShift (n : Nat) (s : Int) : Nat :=
  if s ≤ 0 then n <<< (-s).toNat
  else
    let halves := n >>> (s.toNat - 1)
    let floor := halves / 2
    if halves % 2 = 0 then floor
    else if floor % 2 = 0 ∧ halves <<< (s.toNat - 1) = n then floor
    else floor + 1

def nearestBits (w : Width) (n : Nat) (e : Int) : Nat :=
  if n = 0 then 0
  else
    let unit := max (e + n.log2 - w.fractionBits) w.least
    min ((unit - w.least).toNat * w.hiddenBit + roundShift n (unit - e)) w.infinityBits

end VisibleDifference.Binary
