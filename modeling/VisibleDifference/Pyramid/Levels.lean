import VisibleDifference.Pyramid.Blur

/-!
# Pyramids

Eight planes of one size: the source, and seven times the blur of the plane before. A value can be
asked for by any three numbers; `read` says what is wrong with a place outside the pyramid.
-/

namespace VisibleDifference

universe u

abbrev levelCount : Nat := 8

inductive PyramidFault where
  | noLevel (level : Nat)
  | outside (x y width height : Nat)
deriving DecidableEq, Repr

def PyramidFault.message : PyramidFault → String
  | .noLevel level => s!"pyramid level {level} out of range (max {levelCount - 1})"
  | .outside x y width height => s!"pixel ({x}, {y}) outside {width}x{height} pyramid"

structure Pyramid (α : Type u) (width height : Nat) where
  levels : List (Plane α width height)
  length_levels : levels.length = levelCount

namespace Pyramid

variable {α : Type u} {w h : Nat}

/-- `p`, then its blur, then the blur of that: `n` planes. -/
def blurs [MulAdd α] (k : Kernel α) : Nat → Plane α w h → List (Plane α w h)
  | 0, _ => []
  | n + 1, p => p :: blurs k n (p.blur k)

theorem length_blurs [MulAdd α] (k : Kernel α) (n : Nat) (p : Plane α w h) :
    (blurs k n p).length = n := by
  induction n generalizing p with
  | zero => rfl
  | succ n ih => simp [blurs, ih]

theorem getElem?_blurs_succ [MulAdd α] (k : Kernel α) {n i : Nat} (hi : i + 1 < n)
    (p : Plane α w h) :
    (blurs k n p)[i + 1]? = ((blurs k n p)[i]?).map (Plane.blur k) := by
  induction i generalizing n p with
  | zero =>
    obtain ⟨m, rfl⟩ : ∃ m, n = m + 2 := ⟨n - 2, by omega⟩
    rfl
  | succ i ih =>
    obtain ⟨m, rfl⟩ : ∃ m, n = m + 1 := ⟨n - 1, by omega⟩
    exact ih (by omega) (p.blur k)

def of [MulAdd α] (k : Kernel α) (p : Plane α w h) : Pyramid α w h :=
  ⟨blurs k levelCount p, length_blurs k levelCount p⟩

def level (p : Pyramid α w h) (l : Fin levelCount) : Plane α w h :=
  p.levels.get (l.cast p.length_levels.symm)

theorem getElem?_levels (p : Pyramid α w h) (l : Fin levelCount) :
    p.levels[l.val]? = some (p.level l) := by
  simp [level, p.length_levels]

/-- The lowest level is the source. -/
theorem level_of_zero [MulAdd α] (k : Kernel α) (p : Plane α w h) (l : Fin levelCount)
    (hl : l.val = 0) : (of k p).level l = p := by
  obtain rfl : l = ⟨0, by decide⟩ := Fin.ext hl
  rfl

/-- Each other level is the blur of the one below. -/
theorem level_of_succ [MulAdd α] (k : Kernel α) (p : Plane α w h) {l l' : Fin levelCount}
    (hl : l'.val = l.val + 1) : (of k p).level l' = ((of k p).level l).blur k := by
  have hs := getElem?_blurs_succ k (hl ▸ l'.isLt) p
  have hlow := getElem?_levels (of k p) l
  have hhigh := getElem?_levels (of k p) l'
  simp only [of, hl] at hlow hhigh
  rw [hlow, hhigh] at hs
  exact Option.some.inj hs

def value (p : Pyramid α w h) (l : Fin levelCount) (x : Fin w) (y : Fin h) : α :=
  (p.level l).get x y

def level? (p : Pyramid α w h) (l : Nat) : Option (Plane α w h) := p.levels[l]?

def get? (p : Pyramid α w h) (x y l : Nat) : Option α :=
  if hp : x < w ∧ y < h then (p.level? l).map fun q => q.get ⟨x, hp.1⟩ ⟨y, hp.2⟩ else none

/-- The level is looked at first, then the place. -/
def read (p : Pyramid α w h) (x y l : Nat) : Except PyramidFault α :=
  if hl : l < levelCount then
    if hp : x < w ∧ y < h then .ok (p.value ⟨l, hl⟩ ⟨x, hp.1⟩ ⟨y, hp.2⟩)
    else .error (.outside x y w h)
  else .error (.noLevel l)

end Pyramid

end VisibleDifference
