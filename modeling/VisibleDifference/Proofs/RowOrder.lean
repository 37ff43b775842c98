import VisibleDifference.Proofs.Checked.Chunks
import VisibleDifference.Proofs.Maps

/-!
# Rows in any order

Each row is written once, by a step that reads nothing the other rows write. So rows can be taken in
any order: the plane that is blurred or marked, whatever was in it before, and the number of pixels
that are counted are those of the rows from top to bottom.
-/

namespace VisibleDifference

namespace Plane

variable {α : Type} {w h : Nat}

theorem fillRows_of_perm {order : List (Fin h)} (ho : order.Perm (List.finRange h))
    (f : Fin w → Fin h → α) (p : Plane α w h) : p.fillRows order f = ofFn f := by
  apply ext_get
  intro x y
  rw [get_fillRows_of_mem f x y order (ho.mem_iff.mpr (List.mem_finRange y)), get_ofFn]

theorem blur_eq_ofFn [MulAdd α] (k : Kernel α) (p : Plane α w h) : p.blur k = ofFn (p.tapSum k) :=
  fillRows_rowOrder _ _

end Plane

namespace Viewing

variable {w h : Nat} (v : Viewing w h) {order : List (Fin h)}

theorem countRows_of_perm (ho : order.Perm (List.finRange h)) :
    v.countRows order = v.visible.card := by
  rw [countRows_eq_sum, card_visible]
  exact (ho.map _).sum_eq

theorem markRows_of_perm (ho : order.Perm (List.finRange h)) (initial : Plane Bool w h) :
    v.markRows order initial = (.ofFn v.differs, v.visible.card) := by
  rw [markRows_eq, Plane.fillRows_of_perm ho, v.countRows_of_perm ho]

end Viewing

/-- Whatever the order of the rows, each taken in its chunk or in the whole plane, and whatever the
planes that are written held before, blurring and marking give what they give from top to bottom,
and the flags that are counted are as many as without a map. -/
theorem rows_may_be_taken_in_any_order {α : Type} [MulAdd α] {w h : Nat} {order : List (Fin h)}
    (ho : order.Perm (List.finRange h)) :
    (∀ (k : Kernel α) (p : Plane α w h),
      (∀ out : Plane α w h, p.blurRows k order out = p.blur k) ∧
      (4 * (w * h) < addressLimit → ∀ out out' : Plane α w h,
        Plane.blurChunks k.stored p.stored w h (order.map Fin.val) out.stored =
          .ok (p.blur k).stored ∧
        Plane.checkedBlur k.stored p.stored w h out'.stored = .ok (p.blur k).stored)) ∧
    ∀ v : Viewing w h, ∃ (flags : Plane Bool w h) (count : Nat),
      (∀ initial : Plane Bool w h, v.markRows order initial = (flags, count) ∧
        v.markRows (Plane.rowOrder w h) initial = (flags, count)) ∧
      v.countRows order = count ∧ v.countRows (Plane.rowOrder w h) = count ∧
      (w * h < addressLimit →
        (∀ initial initial' : Plane Bool w h,
          v.stored.markChunks (order.map Fin.val) initial.stored = .ok (flags.stored, count) ∧
          v.stored.checkedCount (some initial'.stored) = .ok (some flags.stored, count)) ∧
        v.stored.checkedCount none = .ok (none, count)) := by
  refine ⟨fun k p => ⟨fun out => ?_, fun hm out out' => ⟨?_, Plane.checkedBlur_eq k p out' hm⟩⟩,
    fun v => ⟨.ofFn v.differs, v.visible.card,
      fun initial => ⟨v.markRows_of_perm ho initial, v.markRows_rowOrder initial⟩,
      v.countRows_of_perm ho, v.countRows_rowOrder,
      fun hm => ⟨fun initial initial' => ⟨?_, ?_⟩, ?_⟩⟩⟩
  · rw [Plane.blurRows, Plane.fillRows_of_perm ho, Plane.blur_eq_ofFn]
  · rw [Plane.blurChunks_eq k p hm, Plane.blurRows, Plane.fillRows_of_perm ho,
      Plane.blur_eq_ofFn]
  · have hl : order.length = h := ho.length_eq.trans List.length_finRange
    rw [StoredViewing.markChunks_eq v hm hl.le, v.markRows_of_perm ho]
  · exact StoredViewing.checkedCount_eq v hm (some initial')
  · exact StoredViewing.checkedCount_eq v hm none

/-- Black, and white in the last row. -/
def litBelow : Plane UInt32 2 3 := (Plane.fill 0xff000000).set (Fin.last 1) (Fin.last 2) 0xffffffff

/-- Three rows from the middle down, then the first, over flags that were all set. -/
theorem rows_from_the_middle_agree :
    ([1, 2, 0] : List (Fin 3)).Perm (List.finRange 3) ∧
    (∀ p : Plane Float32 2 3,
      p.blurRows Kernel.lowPass [1, 2, 0] (.fill 7) = p.blur Kernel.lowPass) ∧
    ∃ (flags : Plane Bool 2 3) (count : Nat),
      (Viewing.under {} (.fill 0xff000000) litBelow).markRows [1, 2, 0] (.fill true) =
        (flags, count) ∧
      (Viewing.under {} (.fill 0xff000000) litBelow).stored.markChunks [1, 2, 0]
        (Array.replicate 6 true) = .ok (flags.stored, count) ∧
      (Viewing.under {} (.fill 0xff000000) litBelow).stored.checkedCount none =
        .ok (none, count) := by
  have ho : ([1, 2, 0] : List (Fin 3)).Perm (List.finRange 3) := by decide
  obtain ⟨hblur, hmark⟩ := rows_may_be_taken_in_any_order (α := Float32) (w := 2) ho
  obtain ⟨flags, count, hrows, -, -, hstored⟩ := hmark (.under {} (.fill 0xff000000) litBelow)
  obtain ⟨hchunks, hnone⟩ := hstored (by decide)
  exact ⟨ho, fun p => (hblur Kernel.lowPass p).1 _, flags, count, (hrows _).1,
    (hchunks (.fill true) (.fill true)).1, hnone⟩

end VisibleDifference
