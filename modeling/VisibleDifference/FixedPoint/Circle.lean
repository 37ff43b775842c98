/-!
# Sine and cosine in fixed point

A natural number `n` stands for `n / 2 ^ circleBits`. The fraction is wide enough to reduce an
angle of up to `2 ^ 128` modulo `π` and keep 250 bits of the remainder.
-/

namespace VisibleDifference.FixedPoint

/-- Fraction bits. -/
abbrev circleBits : Nat := 384

/-- `power / k - power / square / (k + 2) + …`, as many terms as the first count says. -/
def arctanTail (square : Nat) : Nat → Nat → Nat → Int
  | 0, _, _ => 0
  | n + 1, k, power => (power / k : Nat) - arctanTail square n (k + 2) (power / square)

/-- The arc tangent of `1 / q`, for `q` at least five. -/
def arctanInv (q : Nat) : Int := arctanTail (q * q) 84 1 ((1 <<< circleBits) / q)

/-- Machin's formula. -/
def pi : Nat := (4 * (4 * arctanInv 5 - arctanInv 239)).toNat

/-- `term - term * square / ((k + 1) * (k + 2)) + …`. -/
def alternating (square : Nat) : Nat → Nat → Nat → Int
  | 0, _, _ => 0
  | n + 1, k, term =>
      (term : Int) -
        alternating square n (k + 2) (((term * square) >>> circleBits) / ((k + 1) * (k + 2)))

/-- The sine of an angle below four. -/
def sine (r : Nat) : Int := alternating ((r * r) >>> circleBits) 64 1 r

/-- The cosine of an angle below four. -/
def cosine (r : Nat) : Int := alternating ((r * r) >>> circleBits) 64 0 (1 <<< circleBits)

end VisibleDifference.FixedPoint
