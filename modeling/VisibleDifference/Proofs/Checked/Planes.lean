import Mathlib.Data.List.FinRange
import Mathlib.Data.List.OfFn
import VisibleDifference.Proofs.Checked.Basic

/-!
# Planes as stored

A plane is stored as one array, row after row. Values are read and written at the address of their
place, rows are cut out of the array, and an array is filled from its start. None of this traps
inside the plane, and each operation on the array is one on the plane.
-/

namespace VisibleDifference

universe u v

namespace Plane

open Checked

variable {α : Type u} {w h : Nat}

/-- The values in one array, row after row. -/
def stored (p : Plane α w h) : Array α := p.cells.toArray

@[simp] theorem size_stored (p : Plane α w h) : p.stored.size = w * h := p.cells.size_toArray

theorem read_stored (p : Plane α w h) (x : Fin w) (y : Fin h) :
    read p.stored (y.val * w + x.val) = .ok (p.get x y) :=
  read_of_lt (p.size_stored.symm ▸ index_lt x y)

theorem write_stored (p : Plane α w h) (x : Fin w) (y : Fin h) (a : α) :
    write p.stored (y.val * w + x.val) a = .ok (p.set x y a).stored :=
  write_of_lt a (p.size_stored.symm ▸ index_lt x y)

theorem row_le (y : Fin h) : (y.val + 1) * w ≤ w * h := by
  rw [Nat.mul_comm w h]
  exact Nat.mul_le_mul_right w y.isLt

theorem slice_stored (p : Plane α w h) (y : Fin h) :
    slice p.stored (y.val * w) ((y.val + 1) * w) =
      .ok (p.stored.extract (y.val * w) ((y.val + 1) * w)) :=
  slice_of_le (Nat.mul_le_mul_right w (Nat.le_succ _)) (p.size_stored.symm ▸ row_le y)

theorem read_extract_stored (p : Plane α w h) (x : Fin w) (y : Fin h) :
    read (p.stored.extract (y.val * w) ((y.val + 1) * w)) x.val = .ok (p.get x y) := by
  have hi : y.val * w + x.val < (y.val + 1) * w := by
    rw [Nat.succ_mul]
    exact Nat.add_lt_add_left x.isLt _
  rw [read_extract hi (p.size_stored.symm ▸ row_le y), read_stored]

theorem stored_eq_of_empty (p q : Plane α w h) (he : w = 0 ∨ h = 0) : p.stored = q.stored := by
  have hz : w * h = 0 := Nat.mul_eq_zero.mpr he
  rw [Array.eq_empty_of_size_eq_zero (p.size_stored.trans hz),
    Array.eq_empty_of_size_eq_zero (q.size_stored.trans hz)]

theorem stored_fill (a : α) : (fill a : Plane α w h).stored = Array.replicate (w * h) a := rfl

theorem toList_stored (p : Plane α w h) : p.stored.toList = p.toList := rfl

theorem ofArray?_stored (p : Plane α w h) : ofArray? w h p.stored = some p :=
  dif_pos p.size_stored

theorem toList_eq_flatten (p : Plane α w h) :
    p.toList = ((List.finRange h).map p.rowList).flatten := by
  have hl : p.toList = List.ofFn fun i : Fin (w * h) => p.cells[i] := by
    apply List.ext_getElem
    · simp [toList]
    · intro i hi _
      simp [toList]
  rw [hl, List.ofFn_mul', List.ofFn_eq_map]
  congr 2
  funext y
  rw [rowList, List.ofFn_eq_map]
  apply List.map_congr_left
  intro x _
  simp only [get, index, Fin.getElem_fin, Nat.mul_comm w]

@[simp] theorem length_rowList (p : Plane α w h) (y : Fin h) : (p.rowList y).length = w := by
  simp [rowList]

theorem toList_map {β : Type v} (f : α → β) (p : Plane α w h) :
    (p.map f).toList = p.toList.map f := by
  simp [toList, map, Vector.toList]

theorem stored_map {β : Type v} (f : α → β) (p : Plane α w h) :
    (p.map f).stored = (p.toList.map f).toArray := by
  rw [← toList_map, ← toList_stored]

theorem toList_cast {w' h' : Nat} (hw : w = w') (hh : h = h') (p : Plane α w h) :
    (p.cast hw hh).toList = p.toList := by
  subst hw hh
  rfl

theorem get_column_row (p : Plane α w h) (i : Fin (w * h)) :
    p.get (column i) (row i) = p.cells[i] := by
  simp [get]

/-- A plane made of two is stored pair by pair. -/
theorem stored_ofFn_map {β : Type u} {γ : Type v} (f : α → β → γ) (p : Plane α w h)
    (q : Plane β w h) :
    (ofFn fun x y => f (p.get x y) (q.get x y)).stored =
      ((p.toList.zip q.toList).map fun pq => f pq.1 pq.2).toArray := by
  apply Array.ext
  · simp [toList]
  · intro i hi _
    rw [size_stored] at hi
    have hp := p.get_column_row ⟨i, hi⟩
    have hq := q.get_column_row ⟨i, hi⟩
    simp [stored, ofFn, hp, hq, toList]

end Plane

namespace Checked

variable {α : Type u} {β : Type u}

/-- An array of `n` entries whose first ones hold `f` of the items done. -/
def filled (n : Nat) (blank : β) (f : α → β) (done : List α) : Array β :=
  (done.map f ++ List.replicate (n - done.length) blank).toArray

theorem filled_nil (n : Nat) (blank : β) (f : α → β) :
    filled n blank f [] = Array.replicate n blank := by
  simp [filled]

theorem filled_of_length_eq {n : Nat} (blank : β) (f : α → β) {done : List α}
    (hl : done.length = n) : filled n blank f done = (done.map f).toArray := by
  simp [filled, hl]

theorem read_filled {n : Nat} (blank : β) (f : α → β) {done : List α} {i : Nat}
    (hi : i < done.length) : read (filled n blank f done) i = .ok (f done[i]) := by
  have hs : i < (filled n blank f done).size := by
    simp only [filled, List.size_toArray, List.length_append, List.length_map]
    omega
  rw [read_of_lt hs]
  simp [filled, hi]

theorem write_filled {n : Nat} (blank : β) (f : α → β) {done : List α} (a : α)
    (hl : done.length < n) :
    write (filled n blank f done) done.length (f a) = .ok (filled n blank f (done ++ [a])) := by
  have hs : done.length < (filled n blank f done).size := by
    simp only [filled, List.size_toArray, List.length_append, List.length_map,
      List.length_replicate]
    omega
  obtain ⟨k, hk⟩ : ∃ k, n - done.length = k + 1 := ⟨n - done.length - 1, by omega⟩
  have hr : n - (done ++ [a]).length = k := by
    rw [List.length_append, List.length_singleton]
    omega
  rw [write_of_lt _ hs]
  simp only [filled, hk, hr, List.set_toArray, List.replicate_succ, List.map_append,
    List.map_cons, List.map_nil, List.append_assoc, List.singleton_append]
  rw [List.set_append_right _ _ (by simp)]
  simp

end Checked

end VisibleDifference
