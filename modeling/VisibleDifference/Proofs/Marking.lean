import VisibleDifference.Comparison.Marking
import VisibleDifference.Proofs.Places

/-!
# Which pixels are marked, and how many

The two ways of taking stock of a picture agree: marking counts what it marks, and counting alone
gives the same number. The number is that of the pixels that look different, and the map shows
exactly these.
-/

namespace VisibleDifference

namespace Viewing

variable {w h : Nat} (v : Viewing w h)

theorem count_rowFlags (y : Fin h) :
    (v.rowFlags y).count true = (List.finRange w).countP fun x => v.differs x y := by
  rw [rowFlags, ← Vector.count_toList, Vector.toList_ofFn, List.ofFn_eq_map, List.count,
    List.countP_map]
  congr 1
  funext x
  simp

/-- Marking rows is writing their flags and counting them. -/
theorem markRows_eq (order : List (Fin h)) (flags : Plane Bool w h) :
    v.markRows order flags = (flags.fillRows order v.differs, v.countRows order) := by
  have hgen (n : Nat) : order.foldl v.markRow (flags, n) =
      (flags.fillRows order v.differs,
        order.foldl (fun n y => n + (v.rowFlags y).count true) n) := by
    induction order generalizing flags n with
    | nil => rfl
    | cons y order ih =>
      have hr : v.markRow (flags, n) y =
          (flags.setRow y fun x => v.differs x y, n + (v.rowFlags y).count true) := by
        simp [markRow, rowFlags]
      rw [List.foldl_cons, hr, ih]
      rfl
  exact hgen 0

/-- The pixels that look different. -/
def visible : Finset (Fin w × Fin h) := Finset.univ.filter fun p => v.differs p.1 p.2 = true

@[simp] theorem mem_visible (p : Fin w × Fin h) : p ∈ v.visible ↔ v.differs p.1 p.2 = true := by
  simp [visible]

theorem card_visible :
    v.visible.card = ((List.finRange h).map fun y => (v.rowFlags y).count true).sum := by
  have hrow (y : Fin h) : (v.rowFlags y).count true =
      ∑ x : Fin w, if v.differs x y = true then 1 else 0 := by
    rw [v.count_rowFlags, countP_finRange]
  rw [visible, Finset.card_filter, Fintype.sum_prod_type_right, Fin.sum_univ_def]
  simp only [hrow]

theorem countRows_eq_sum (order : List (Fin h)) :
    v.countRows order = (order.map fun y => (v.rowFlags y).count true).sum := by
  have hgen (n : Nat) : order.foldl (fun n y => n + (v.rowFlags y).count true) n =
      n + (order.map fun y => (v.rowFlags y).count true).sum := by
    induction order generalizing n with
    | nil => rfl
    | cons y order ih =>
      rw [List.foldl_cons, ih, List.map_cons, List.sum_cons, Nat.add_assoc]
  rw [countRows, hgen, Nat.zero_add]

theorem countRows_rowOrder : v.countRows (Plane.rowOrder w h) = v.visible.card := by
  by_cases hw : w = 0
  · subst hw
    rfl
  · rw [countRows_eq_sum, card_visible, Plane.rowOrder, if_neg hw]

/-- What is found are the number of pixels that look different and, if wanted, their flags. -/
theorem find_eq (wantsMap : Bool) :
    v.find wantsMap =
      ⟨v.visible.card, if wantsMap then some ⟨w, h, Plane.ofFn v.differs⟩ else none⟩ := by
  cases wantsMap with
  | false =>
    simp only [find, countRows_rowOrder]
    rfl
  | true =>
    simp only [find, markRows_eq, countRows_rowOrder, Plane.fillRows_rowOrder]
    rfl

end Viewing

end VisibleDifference
