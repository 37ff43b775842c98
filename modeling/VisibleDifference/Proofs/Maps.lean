import VisibleDifference.Proofs.Checked.Comparison
import VisibleDifference.Proofs.Locality
import VisibleDifference.Proofs.Places

/-!
# Maps, counts and runs without a map

With a map or without one the same pixels are counted. The map has one flag per pixel, read by its
place or by its address, and the number of flags that are set is the count. What the flags were
before they were written does not show.
-/

namespace VisibleDifference

namespace Viewing

variable {w h : Nat} (v : Viewing w h)

theorem count_ofFn_differs : (DifferenceMap.mk w h (.ofFn v.differs)).count = v.visible.card := by
  have hl : (Plane.ofFn v.differs).cells.count true = (Plane.ofFn v.differs).toList.count true :=
    Vector.count_toList.symm
  rw [DifferenceMap.count, hl, List.count, Plane.countP_toList, visible]
  simp only [Plane.get_ofFn, beq_true]

theorem card_visible_le_size : v.visible.card ≤ w * h := by
  have hc := Finset.card_le_univ v.visible
  rwa [Fintype.card_prod, Fintype.card_fin, Fintype.card_fin] at hc

/-- All flags are written, whatever they were before. -/
theorem markRows_rowOrder (initial : Plane Bool w h) :
    v.markRows (Plane.rowOrder w h) initial = (.ofFn v.differs, v.visible.card) := by
  rw [markRows_eq, Plane.fillRows_rowOrder, countRows_rowOrder]

end Viewing

namespace StoredViewing

variable {w h : Nat}

theorem checkedCount_of_size (v : Viewing w h) (hm : w * h < addressLimit) {initial : Array Bool}
    (hs : initial.size = w * h) :
    v.stored.checkedCount (some initial) =
      .ok (some (Plane.ofFn v.differs).stored, v.visible.card) :=
  checkedCount_eq v hm (some ⟨⟨initial, hs⟩⟩)

end StoredViewing

namespace Bitmap

open Picture (perceive)

variable {w h : Nat}

/-- Two bitmaps of one size as they are seen. -/
def seen (c : Conditions) (a b : Bitmap) (ha : a.width = w ∧ a.height = h)
    (hb : b.width = w ∧ b.height = h) : Viewing w h :=
  Viewing.under c (a.plane ha) (b.plane hb)

/-- A run with a map marks exactly the pixels that look different and counts what it marks; a run
without one gives the same count. -/
theorem map_and_count_agree {c : Conditions} (hv : c.validate = .ok ()) {a b : Bitmap}
    (ha : a.width = w ∧ a.height = h) (hb : b.width = w ∧ b.height = h) :
    ∃ (flags : Plane Bool w h) (n : Nat),
      perceive { c with wantsMap := true } a.picture b.picture =
        .ok ⟨n, some ⟨w, h, flags⟩⟩ ∧
      perceive { c with wantsMap := false } a.picture b.picture = .ok ⟨n, none⟩ ∧
      flags.toList.length = w * h ∧
      (∀ (x : Fin w) (y : Fin h),
        (DifferenceMap.mk w h flags).isMarked? x.val y.val =
          some ((seen c a b ha hb).differs x y) ∧
        flags.toList[y.val * w + x.val]? = some ((seen c a b ha hb).differs x y)) ∧
      (DifferenceMap.mk w h flags).count = n ∧ n ≤ w * h ∧
      (∀ initial : Plane Bool w h,
        (seen c a b ha hb).markRows (Plane.rowOrder w h) initial = (flags, n)) ∧
      (a.Addressable →
        (seen c a b ha hb).stored.checkedCount none = .ok (none, n) ∧
        ∀ initial : Array Bool, initial.size = w * h →
          (seen c a b ha hb).stored.checkedCount (some initial) =
            .ok (some flags.toList.toArray, n)) := by
  have hmap : ({ c with wantsMap := true } : Conditions).validate = .ok () := hv
  have hcount : ({ c with wantsMap := false } : Conditions).validate = .ok () := hv
  have hlimit (hl : a.Addressable) : w * h < addressLimit := by
    have hp := a.pixelCount_lt hl
    rw [pixelCount, ha.1, ha.2] at hp
    omega
  refine ⟨.ofFn (seen c a b ha hb).differs, (seen c a b ha hb).visible.card, ?_, ?_,
    Plane.length_toList _, fun x y => ⟨?_, ?_⟩, Viewing.count_ofFn_differs _,
    Viewing.card_visible_le_size _, Viewing.markRows_rowOrder _,
    fun hl => ⟨?_, fun initial hs => ?_⟩⟩
  · rw [perceive_eq_find hmap ha hb, Viewing.find_eq]
    rfl
  · rw [perceive_eq_find hcount ha hb, Viewing.find_eq]
    rfl
  · rw [DifferenceMap.isMarked?, dif_pos ⟨x.isLt, y.isLt⟩]
    exact congrArg some (Plane.get_ofFn _ _ _)
  · rw [Plane.toList_getElem?, Plane.get_ofFn]
  · exact StoredViewing.checkedCount_eq _ (hlimit hl) none
  · exact StoredViewing.checkedCount_of_size _ (hlimit hl) hs

/-- On sixteen black pixels, set flags are cleared. -/
theorem set_flags_of_black_row_are_overwritten :
    ({} : Conditions).validate = .ok () ∧
    ∃ (flags : Plane Bool 16 1) (n : Nat),
      perceive { wantsMap := false } (blackRow 0).picture (blackRow 1).picture = .ok ⟨n, none⟩ ∧
      (DifferenceMap.mk 16 1 flags).count = n ∧
      (seen {} (blackRow 0) (blackRow 1) ⟨rfl, rfl⟩ ⟨rfl, rfl⟩).stored.checkedCount
        (some (Array.replicate 16 true)) = .ok (some flags.toList.toArray, n) := by
  have hv : ({} : Conditions).validate = .ok () := by rfl
  have hs (last : UInt8) : (blackRow last).width = 16 ∧ (blackRow last).height = 1 := ⟨rfl, rfl⟩
  obtain ⟨flags, n, -, hn, -, -, hcount, -, -, hstored⟩ := map_and_count_agree hv (hs 0) (hs 1)
  have hl : (blackRow 0).Addressable := by
    rw [Addressable]
    decide
  exact ⟨hv, flags, n, hn, hcount, (hstored hl).2 _ (by decide)⟩

end Bitmap

end VisibleDifference
