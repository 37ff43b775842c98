import Mathlib.Algebra.BigOperators.Fin
import VisibleDifference.Proofs.Checked.Planes

/-!
# Places of a plane

The list of the values of a plane has one entry for each place, at the address of the place. What is
counted over the list is a number of places, and two planes are gone through side by side place by
place.
-/

namespace VisibleDifference

theorem countP_finRange {n : Nat} (f : Fin n → Bool) :
    (List.finRange n).countP f = ∑ i : Fin n, if f i = true then 1 else 0 := by
  rw [Fin.sum_univ_def]
  induction List.finRange n with
  | nil => rfl
  | cons i is ih => rw [List.countP_cons, List.map_cons, List.sum_cons, ih, Nat.add_comm]

/-- A running maximum is below a bound if its start and all values are. -/
theorem foldl_max_le_iff {α : Type} (f : α → Nat) (l : List α) (start bound : Nat) :
    l.foldl (fun m a => max m (f a)) start ≤ bound ↔
      start ≤ bound ∧ ∀ a ∈ l, f a ≤ bound := by
  induction l generalizing start with
  | nil => simp
  | cons a l ih => rw [List.foldl_cons, ih, Nat.max_le, List.forall_mem_cons, and_assoc]

namespace Plane

variable {α β : Type} {w h : Nat}

theorem length_toList (p : Plane α w h) : p.toList.length = w * h := p.cells.length_toList

theorem toList_getElem? (p : Plane α w h) (x : Fin w) (y : Fin h) :
    p.toList[y.val * w + x.val]? = some (p.get x y) := by
  have hi : y.val * w + x.val < p.toList.length := p.length_toList.symm ▸ index_lt x y
  rw [List.getElem?_eq_getElem hi]
  rfl

theorem mem_toList (p : Plane α w h) (a : α) : a ∈ p.toList ↔ ∃ x y, p.get x y = a := by
  constructor
  · intro ha
    obtain ⟨i, hi, rfl⟩ := List.getElem_of_mem ha
    exact ⟨_, _, p.get_column_row ⟨i, p.length_toList ▸ hi⟩⟩
  · rintro ⟨x, y, rfl⟩
    exact List.mem_of_getElem? (p.toList_getElem? x y)

theorem countP_toList (p : Plane α w h) (f : α → Bool) :
    p.toList.countP f =
      (Finset.univ.filter fun xy : Fin w × Fin h => f (p.get xy.1 xy.2) = true).card := by
  have hrow (y : Fin h) : (p.rowList y).countP f =
      ∑ x : Fin w, if f (p.get x y) = true then 1 else 0 := by
    rw [rowList, List.countP_map]
    exact countP_finRange fun x => f (p.get x y)
  rw [toList_eq_flatten, List.countP_flatten, List.map_map, Finset.card_filter,
    Fintype.sum_prod_type_right, Fin.sum_univ_def]
  simp only [Function.comp_def, hrow]

theorem toList_zip (p : Plane α w h) (q : Plane β w h) :
    p.toList.zip q.toList = (ofFn fun x y => (p.get x y, q.get x y)).toList := by
  have hs := stored_ofFn_map Prod.mk p q
  rw [← toList_stored (ofFn _), hs, List.toList_toArray]
  exact (List.map_id _).symm

end Plane

end VisibleDifference
