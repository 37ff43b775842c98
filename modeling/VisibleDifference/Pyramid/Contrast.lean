import VisibleDifference.Pyramid.Levels

/-!
# Contrast of a band

The contrast of a band at a pixel is the change from its level to the next, relative to the level
after that. Of two pyramids the larger change and the larger surround are taken.
-/

namespace VisibleDifference

universe u

abbrev bandCount : Nat := levelCount - 2

variable {α : Type u} {w h : Nat}

theorem bandLevel_lt (i : Fin bandCount) (d : Fin 3) : i.val + d.val < levelCount := by
  have hi : i.val < 6 := i.isLt
  have hd : d.val < 3 := d.isLt
  show _ < 8
  omega

/-- The level `d` steps above band `i`. -/
def bandLevel (i : Fin bandCount) (d : Fin 3) : Fin levelCount := ⟨i.val + d.val, bandLevel_lt i d⟩

/-- The level whose frequency a band has. -/
def ownLevel (i : Fin bandCount) : Fin levelCount := bandLevel i 0

/-- The contrast of band `i`, over a surround of at least `floor`. -/
def bandContrast [Sub α] [Div α] [Magnitude α] (floor : α) (p q : Pyramid α w h)
    (x : Fin w) (y : Fin h) (i : Fin bandCount) : α :=
  let change (r : Pyramid α w h) : α :=
    Magnitude.magnitude (r.value (ownLevel i) x y - r.value (bandLevel i 1) x y)
  let surround (r : Pyramid α w h) : α := Magnitude.magnitude (r.value (bandLevel i 2) x y)
  Magnitude.larger (change p) (change q) /
    Magnitude.larger (Magnitude.larger (surround p) (surround q)) floor

end VisibleDifference
