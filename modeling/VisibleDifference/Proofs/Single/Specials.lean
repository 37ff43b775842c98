import VisibleDifference.Proofs.Single.Operations

/-!
# Infinities and NaN

What the operations make of operands that are not finite: an infinity outweighs every number, two
infinities that work against each other give NaN, and NaN stays NaN.
-/

namespace VisibleDifference.Binary

open Float.Model (Format UnpackedFloat)
open Float.Model.UnpackedFloat

variable {x y z : Float32} {s t u : Bool} {p q r : ℝ}

theorem add_eq (x y : Float32) :
    x + y = .ofModel (.pack (add Format.binary32 x.toModel.unpack y.toModel.unpack)) := rfl

section Infinite

theorem reading_infinite_add (hx : reading x = .infinite s) (hy : reading y = .number t q) :
    reading (x + y) = .infinite s := by
  rw [add_eq, form_of_infinite hx]
  obtain ⟨hv, -⟩ | ⟨n, f, hn, hv, -, -⟩ := form_of_number hy <;>
    · rw [hv]
      cases s <;> exact reading_pack_infinity _

theorem reading_infinite_add_infinite (hx : reading x = .infinite s)
    (hy : reading y = .infinite s) : reading (x + y) = .infinite s := by
  rw [add_eq, form_of_infinite hx, form_of_infinite hy]
  cases s <;> exact reading_pack_infinity _

theorem reading_infinite_sub (hx : reading x = .infinite s) (hy : reading y = .infinite s) :
    reading (x - y) = .nan := by
  rw [sub_eq_add_neg, add_eq, unpack_neg, form_of_infinite hx, form_of_infinite hy]
  cases s <;> exact reading_pack_notANumber

theorem reading_infinite_mul (hx : reading x = .infinite s) (hy : reading y = .number t q)
    (hq : 0 < q) : reading (x * y) = .infinite (s != t) ∧ reading (y * x) = .infinite (s != t) := by
  obtain ⟨-, rfl⟩ | ⟨n, f, hn, hv, -, -⟩ := form_of_number hy
  · exact absurd hq (lt_irrefl 0)
  · rw [mul_eq, mul_eq, form_of_infinite hx, hv]
    cases s <;> cases t <;> exact ⟨reading_pack_infinity _, reading_pack_infinity _⟩

theorem reading_infinite_mul_zero (hx : reading x = .infinite s) (hy : reading y = .number t 0) :
    reading (x * y) = .nan ∧ reading (y * x) = .nan := by
  obtain ⟨hv, -⟩ | ⟨n, f, hn, -, -, hq⟩ := form_of_number hy
  · rw [mul_eq, mul_eq, form_of_infinite hx, hv]
    exact ⟨reading_pack_notANumber, reading_pack_notANumber⟩
  · have hpos : (0 : ℝ) < n * 2 ^ f := by positivity
    exact absurd hq hpos.ne

theorem reading_infinite_mul_infinite (hx : reading x = .infinite s)
    (hy : reading y = .infinite t) : reading (x * y) = .infinite (s != t) := by
  rw [mul_eq, form_of_infinite hx, form_of_infinite hy]
  cases s <;> cases t <;> exact reading_pack_infinity _

theorem reading_infinite_div (hx : reading x = .infinite s) (hy : reading y = .number t q) :
    reading (x / y) = .infinite (s != t) := by
  rw [div_eq, form_of_infinite hx]
  obtain ⟨hv, -⟩ | ⟨n, f, hn, hv, -, -⟩ := form_of_number hy <;>
    · rw [hv]
      cases s <;> cases t <;> exact reading_pack_infinity _

theorem reading_div_infinite (hx : reading x = .number s p) (hy : reading y = .infinite t) :
    reading (x / y) = .number (s != t) 0 := by
  rw [div_eq, form_of_infinite hy]
  obtain ⟨hv, -⟩ | ⟨n, f, hn, hv, -, -⟩ := form_of_number hx <;>
    · rw [hv]
      cases s <;> cases t <;> exact reading_pack_zero _

theorem reading_div_zero (hx : reading x = .number s p) (hp : 0 < p)
    (hy : reading y = .number t 0) : reading (x / y) = .infinite (s != t) := by
  obtain ⟨-, rfl⟩ | ⟨m, e, hm, hu, -, -⟩ := form_of_number hx
  · exact absurd hp (lt_irrefl 0)
  obtain ⟨hv, -⟩ | ⟨n, f, hn, hv, -, hq⟩ := form_of_number hy
  · rw [div_eq, hu, hv]
    cases s <;> cases t <;> exact reading_pack_infinity _
  · have : (0 : ℝ) < n * 2 ^ f := by positivity
    exact absurd hq this.ne

theorem reading_sqrt_infinite (hx : reading x = .infinite false) :
    reading x.sqrt = .infinite false := by
  have hsqrt : x.sqrt = .ofModel (.pack (sqrt Format.binary32 x.toModel.unpack)) := rfl
  rw [hsqrt, form_of_infinite hx]
  exact reading_pack_infinity _

end Infinite

section NaN

variable (h : reading x = .nan) (y : Float32)

include h

theorem nan_add : reading (x + y) = .nan := by
  rw [add_eq, form_of_nan h]
  exact reading_pack_notANumber

theorem add_nan : reading (y + x) = .nan := by
  rw [Binary.add_comm]
  exact nan_add h y

theorem nan_mul : reading (x * y) = .nan := by
  rw [mul_eq, form_of_nan h]
  exact reading_pack_notANumber

theorem nan_div : reading (x / y) = .nan := by
  rw [div_eq, form_of_nan h]
  exact reading_pack_notANumber

theorem mul_nan : reading (y * x) = .nan := by
  rw [mul_eq, form_of_nan h]
  cases y.toModel.unpack <;> exact reading_pack_notANumber

end NaN

end VisibleDifference.Binary
