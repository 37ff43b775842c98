import VisibleDifference.Arithmetic
import VisibleDifference.Grid.Plane
import VisibleDifference.Grid.Border

/-!
# Blurring

A plane is blurred by a table of five by five weights centred on each pixel; past a border the
plane is folded back. The products are added up row by row in one chain of multiply-adds. The
low-pass weights are products of the five taps `0.05, 0.25, 0.4, 0.25, 0.05`, each product taken
exactly and then rounded to the type of the samples.
-/

namespace VisibleDifference

universe u

structure Kernel (α : Type u) where
  rows : Vector (Vector α 5) 5

namespace Kernel

variable {α : Type u}

def weight (k : Kernel α) (r c : Fin 5) : α := (k.rows[r])[c]

def ofFn (f : Fin 5 → Fin 5 → α) : Kernel α :=
  ⟨Vector.ofFn fun r => Vector.ofFn fun c => f r c⟩

@[simp] theorem weight_ofFn (f : Fin 5 → Fin 5 → α) (r c : Fin 5) :
    (ofFn f).weight r c = f r c := by
  simp [weight, ofFn]

/-- The taps in hundredths. -/
def tap (i : Fin 5) : Nat := #v[5, 25, 40, 25, 5][i]

def lowPass [OfScientific α] : Kernel α :=
  ofFn fun r c => OfScientific.ofScientific (tap r * tap c) true 4

end Kernel

namespace Plane

variable {α : Type u} [MulAdd α] {w h : Nat}

/-- Where a tap lies relative to the centre of the kernel. -/
def tapOffset (i : Fin 5) : Int := i.val - 2

/-- The blurred value of one pixel. -/
def tapSum (k : Kernel α) (p : Plane α w h) (x : Fin w) (y : Fin h) : α :=
  (List.finRange 5).foldl
    (fun acc r =>
      let y' := neighbour y (tapOffset r)
      (List.finRange 5).foldl
        (fun acc c => MulAdd.mulAdd (k.weight r c) (p.get (neighbour x (tapOffset c)) y') acc)
        acc)
    MulAdd.zero

/-- Blurs `p` into `out`, the rows of `order` only. -/
def blurRows (k : Kernel α) (p : Plane α w h) (order : List (Fin h)) (out : Plane α w h) :
    Plane α w h :=
  out.fillRows order (p.tapSum k)

def blur (k : Kernel α) (p : Plane α w h) : Plane α w h :=
  p.blurRows k (rowOrder w h) (fill MulAdd.zero)

@[simp] theorem get_blur (k : Kernel α) (p : Plane α w h) (x : Fin w) (y : Fin h) :
    (p.blur k).get x y = p.tapSum k x y := by
  simp [blur, blurRows]

end Plane

end VisibleDifference
