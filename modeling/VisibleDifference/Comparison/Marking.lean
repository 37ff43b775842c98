import VisibleDifference.Comparison.Visibility

/-!
# Maps of visible differences

The pixels that look different can be counted, or counted and marked on a map. Both go through the
picture row by row; the rows can be taken in any order.
-/

namespace VisibleDifference

/-- One flag per pixel, set where two pictures look different. -/
structure DifferenceMap where
  width : Nat
  height : Nat
  flags : Plane Bool width height

namespace DifferenceMap

def count (m : DifferenceMap) : Nat := m.flags.cells.count true

def isMarked? (m : DifferenceMap) (x y : Nat) : Option Bool :=
  if hp : x < m.width ∧ y < m.height then some (m.flags.get ⟨x, hp.1⟩ ⟨y, hp.2⟩) else none

def clear (width height : Nat) : DifferenceMap := ⟨width, height, Plane.fill false⟩

end DifferenceMap

namespace Viewing

variable {w h : Nat}

def rowFlags (v : Viewing w h) (y : Fin h) : Vector Bool w := Vector.ofFn fun x => v.differs x y

/-- Writes the flags of row `y` and adds up those that are set. -/
def markRow (v : Viewing w h) (s : Plane Bool w h × Nat) (y : Fin h) : Plane Bool w h × Nat :=
  let flags := v.rowFlags y
  (s.1.setRow y fun x => flags[x], s.2 + flags.count true)

def markRows (v : Viewing w h) (order : List (Fin h)) (flags : Plane Bool w h) :
    Plane Bool w h × Nat :=
  order.foldl v.markRow (flags, 0)

def countRows (v : Viewing w h) (order : List (Fin h)) : Nat :=
  order.foldl (fun n y => n + (v.rowFlags y).count true) 0

end Viewing

/-- How many pixels look different, and which if that was asked for. -/
structure Finding where
  count : Nat
  map : Option DifferenceMap

def Viewing.find {w h : Nat} (v : Viewing w h) (wantsMap : Bool) : Finding :=
  if wantsMap then
    let (flags, count) := v.markRows (Plane.rowOrder w h) (Plane.fill false)
    ⟨count, some ⟨w, h, flags⟩⟩
  else ⟨v.countRows (Plane.rowOrder w h), none⟩

end VisibleDifference
