/-!
# Logarithms and powers of two in fixed point

A natural number `n` stands for `n / 2 ^ bits`. Power series are summed to a fixed number of
terms, each rounded down, which leaves an error below `2 ^ -88`. The results are clamped to the
interval that holds the exact value: `logFraction` lies in `[0, 1]` and `exp2` in `[1, 2]`.
-/

namespace VisibleDifference.FixedPoint

/-- Fraction bits. -/
abbrev bits : Nat := 96

def one : Nat := 1 <<< bits

/-- `power / k + power * square / (k + 2) + …`, as many terms as the first count says. -/
def artanhTail (square : Nat) : Nat → Nat → Nat → Nat
  | 0, _, _ => 0
  | n + 1, k, power =>
      if power = 0 then 0
      else power / k + artanhTail square n (k + 2) ((power * square) >>> bits)

/-- The inverse hyperbolic tangent of a number up to one third. -/
def artanh (z : Nat) : Nat := artanhTail ((z * z) >>> bits) 32 1 z

/-- Half the natural logarithm of two. -/
def halfLogTwo : Nat := artanh (one / 3)

/-- The binary logarithm of `m / 2 ^ m.log2`, a number from one to two. -/
def logFraction (m : Nat) : Nat :=
  let power := 1 <<< m.log2
  min one ((artanh (((m - power) <<< bits) / (m + power)) <<< bits) / halfLogTwo)

/-- The binary logarithm of a positive integer. -/
def log2 (m : Nat) : Nat := (m.log2 <<< bits) + logFraction m

/-- `term + term * r / k + term * r ^ 2 / (k * (k + 1)) + …`. -/
def expTail (r : Nat) : Nat → Nat → Nat → Nat
  | 0, _, _ => 0
  | n + 1, k, term =>
      if term = 0 then 0 else term + expTail r n (k + 1) (((term * r) >>> bits) / k)

/-- Two to the power `f`, for `f` below one. -/
def exp2 (f : Nat) : Nat :=
  max one (min (2 * one) (expTail ((f * (2 * halfLogTwo)) >>> bits) 28 1 one))

theorem logFraction_le_one (m : Nat) : logFraction m ≤ one := Nat.min_le_left _ _

theorem one_le_exp2 (f : Nat) : one ≤ exp2 f := Nat.le_max_left _ _

theorem exp2_le_two (f : Nat) : exp2 f ≤ 2 * one :=
  Nat.max_le.mpr ⟨by omega, Nat.min_le_left _ _⟩

theorem one_pos : 0 < one := by decide

end VisibleDifference.FixedPoint
