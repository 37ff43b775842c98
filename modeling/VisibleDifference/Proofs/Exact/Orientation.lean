import Mathlib.Data.Fin.Rev
import Mathlib.Logic.Function.Conjugate
import VisibleDifference.Proofs.Exact.Smoothing
import VisibleDifference.Proofs.Mirrors

/-!
# Orientation

A row read backwards is folded back in the same way, so with taps that read the same in both
directions, smoothing it gives the smoothed row backwards. Over exact numbers a blur therefore
commutes with both flips of a plane, and with exchanging its rows and columns whatever the taps are,
for sides of every length; and so do all levels of a pyramid.
-/

namespace VisibleDifference

universe u

section Rows

variable {len : ℕ}

/-- Positions are folded back alike at both ends. -/
theorem foldBack_rev (hl : 0 < len) (i : ℤ) :
    foldBack len ((len : ℤ) - 1 - i) = len - 1 - foldBack len i := by
  have hm := mirroredAtEnds_foldBack len
  have hrev : MirroredAtEnds len fun i => foldBack len ((len : ℤ) - 1 - i) := by
    constructor <;> intro i
    · rw [← hm.last]
      congr 1
      omega
    · rw [← hm.first]
      congr 1
      omega
  have hone :
      len = 1 → ∀ i, foldBack len ((len : ℤ) - 1 - i) = foldBack len ((len : ℤ) - 1 - 0) := by
    rintro rfl i
    rfl
  have hlt := foldBack_lt hl i
  have hinside : (len : ℤ) - 1 - (foldBack len i : ℕ) = ((len - 1 - foldBack len i : ℕ) : ℤ) := by
    omega
  rw [hrev.eq_foldBack hone hl i, hinside, foldBack_of_lt (by omega)]

theorem neighbour_rev (x : Fin len) (d : ℤ) : neighbour x.rev d = (neighbour x (-d)).rev := by
  have hx := x.isLt
  have hpos : (x.rev.val : ℤ) + d = (len : ℤ) - 1 - (x.val + -d) := by
    rw [Fin.val_rev]
    omega
  have hfold : foldBack len (x.rev.val + d) = len - 1 - foldBack len (x.val + -d) := by
    rw [hpos, foldBack_rev (by omega)]
  apply Fin.ext
  rw [Fin.val_rev]
  change foldBack len (x.rev.val + d) = len - (foldBack len (x.val + -d) + 1)
  omega

theorem tapOffset_rev (c : Fin 5) : Plane.tapOffset c.rev = -Plane.tapOffset c := by
  rw [Plane.tapOffset, Plane.tapOffset, Fin.val_rev]
  omega

/-- The same in both directions. -/
def Palindromic {R : Type u} (t : Fin 5 → R) : Prop := ∀ c, t c.rev = t c

theorem palindromic_lowPassTaps : Palindromic Kernel.lowPassTaps := by
  unfold Palindromic
  decide +kernel

variable {R : Type u} [CommSemiring R] {t : Fin 5 → R}

theorem smooth_rev (ht : Palindromic t) (f : Fin len → R) (x : Fin len) :
    smooth t (fun x => f x.rev) x = smooth t f x.rev := by
  rw [smooth, smooth, ← Equiv.sum_comp Fin.revPerm]
  refine Finset.sum_congr rfl fun c _ => ?_
  rw [Fin.revPerm_apply, ht, tapOffset_rev, ← neighbour_rev]

end Rows

namespace Plane

section Orientations

variable {α : Type u} {w h : ℕ}

/-- The left-right mirror image. -/
def flipColumns (p : Plane α w h) : Plane α w h := ofFn fun x y => p.get x.rev y

/-- The top-bottom mirror image. -/
def flipRows (p : Plane α w h) : Plane α w h := ofFn fun x y => p.get x y.rev

/-- Rows and columns exchanged. -/
def transpose (p : Plane α w h) : Plane α h w := ofFn fun x y => p.get y x

@[simp] theorem get_flipColumns (p : Plane α w h) (x : Fin w) (y : Fin h) :
    p.flipColumns.get x y = p.get x.rev y := get_ofFn ..

@[simp] theorem get_flipRows (p : Plane α w h) (x : Fin w) (y : Fin h) :
    p.flipRows.get x y = p.get x y.rev := get_ofFn ..

@[simp] theorem get_transpose (p : Plane α w h) (x : Fin h) (y : Fin w) :
    p.transpose.get x y = p.get y x := get_ofFn ..

end Orientations

variable {R : Type u} [CommSemiring R] {t : Fin 5 → R} {w h : ℕ}

open Function (Semiconj)

theorem blur_flipColumns (ht : Palindromic t) :
    Semiconj flipColumns (blur (w := w) (h := h) (.product t)) (blur (.product t)) := by
  intro p
  apply ext_get
  intro x y
  simp only [get_flipColumns, get_blur, tapSum_product_swap]
  exact (smooth_rev ht (fun x' => smooth t (fun y' => p.get x' y') y) x).symm

theorem blur_flipRows (ht : Palindromic t) :
    Semiconj flipRows (blur (w := w) (h := h) (.product t)) (blur (.product t)) := by
  intro p
  apply ext_get
  intro x y
  simp only [get_flipRows, get_blur, tapSum_product]
  exact (smooth_rev ht (fun y' => smooth t (fun x' => p.get x' y') x) y).symm

theorem blur_transpose (t : Fin 5 → R) :
    Semiconj transpose (blur (w := w) (h := h) (.product t)) (blur (.product t)) := by
  intro p
  apply ext_get
  intro x y
  rw [get_transpose, get_blur, get_blur, tapSum_product_swap, tapSum_product]
  simp only [get_transpose]

end Plane

namespace Pyramid

variable {R : Type u} [CommRing R] {w h : ℕ}

/-- The pyramid of a plane that is flipped or transposed is that of the plane, flipped or transposed
at each level. -/
theorem levels_follow_flips_and_transposition {t : Fin 5 → R} (ht : Palindromic t)
    (p : Plane R w h) (l : Fin levelCount) :
    (of (.product t) p.flipColumns).level l = ((of (.product t) p).level l).flipColumns ∧
    (of (.product t) p.flipRows).level l = ((of (.product t) p).level l).flipRows ∧
    (of (.product t) p.transpose).level l = ((of (.product t) p).level l).transpose := by
  simp only [level_eq_iterate]
  exact ⟨((Plane.blur_flipColumns ht).iterate_right l p).symm,
    ((Plane.blur_flipRows ht).iterate_right l p).symm,
    ((Plane.blur_transpose t).iterate_right l p).symm⟩

/-- A row of three samples, two of them dark. -/
def litEnd : Plane ℚ 3 1 := .ofFn fun x _ => if x.val = 0 then 1 else 0

/-- The end of the flipped row is as bright as the start of the row itself. -/
theorem lit_ends_are_blurred_alike :
    Palindromic Kernel.lowPassTaps ∧
    (of Kernel.lowPass litEnd.flipColumns).value 7 2 0 = (of Kernel.lowPass litEnd).value 7 0 0 ∧
    (of Kernel.lowPass litEnd.transpose).value 1 0 1 = 1 / 4 := by
  obtain ⟨hc, -, -⟩ := levels_follow_flips_and_transposition palindromic_lowPassTaps litEnd 7
  obtain ⟨-, -, ht⟩ := levels_follow_flips_and_transposition palindromic_lowPassTaps litEnd 1
  rw [← Kernel.lowPass_eq_product] at hc ht
  have hlit : (of Kernel.lowPass litEnd).value 1 1 0 = 1 / 4 := by decide +kernel
  refine ⟨palindromic_lowPassTaps, ?_, ?_⟩
  · rw [value, hc, Plane.get_flipColumns]
    rfl
  · rw [value, ht, Plane.get_transpose]
    exact hlit

end Pyramid

end VisibleDifference
