import VisibleDifference.Binary.Value

/-!
# Arithmetic of sample values

Filtering asks for a multiply-add and a zero to start from, contrast for magnitudes and a maximum.
Single precision has both; so has any exact number type, which the filters can be read over.
-/

namespace VisibleDifference

universe u

class MulAdd (α : Type u) where
  zero : α
  /-- `mulAdd a b c` is `a * b + c`. -/
  mulAdd : α → α → α → α

class Magnitude (α : Type u) where
  magnitude : α → α
  larger : α → α → α

instance : MulAdd Float32 where
  zero := 0
  mulAdd := Binary.mulAdd

instance : Magnitude Float32 where
  magnitude := Float32.abs
  larger := Binary.larger

end VisibleDifference
