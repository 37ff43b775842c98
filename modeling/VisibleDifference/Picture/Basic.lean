import VisibleDifference.Grid.Plane
import VisibleDifference.Fault
import VisibleDifference.Picture.Pixel

/-!
# Pictures

A picture is a plane of stored pixels together with its size. Two pictures of one size can be
aligned, which makes planes of one type of them; otherwise they are a fault.
-/

namespace VisibleDifference

structure Picture where
  width : Nat
  height : Nat
  words : Plane UInt32 width height

namespace Picture

def SameSize (a b : Picture) : Prop := b.width = a.width ∧ b.height = a.height

instance (a b : Picture) : Decidable (a.SameSize b) :=
  inferInstanceAs (Decidable (_ ∧ _))

/-- The pixels of `b` as a plane of the size of `a`. -/
def alignedTo (b a : Picture) (hs : a.SameSize b) : Plane UInt32 a.width a.height :=
  b.words.cast hs.1 hs.2

def sizeFault (a b : Picture) : Fault := .sizesDiffer a.width a.height b.width b.height

/-- Whether the pictures have one size and the same pixels. -/
def identical (a b : Picture) : Bool :=
  if hs : a.SameSize b then a.words.cells == (b.alignedTo a hs).cells else false

end Picture

end VisibleDifference
