import VisibleDifference.Proofs.Checked.Rows

/-!
# Equal pixels

Two pictures are identical exactly if they have one size and show the same word at each place. For
buffers the places can be named by any two numbers, whatever lies between their rows.
-/

namespace VisibleDifference

theorem Plane.get_cast {α : Type} {w h w' h' : Nat} (hw : w = w') (hh : h = h') (p : Plane α w h)
    (x : Fin w') (y : Fin h') : (p.cast hw hh).get x y = p.get (x.cast hw.symm) (y.cast hh.symm) := by
  subst hw hh
  rfl

namespace Picture

theorem get_alignedTo (a b : Picture) (hs : a.SameSize b) (x : Fin a.width) (y : Fin a.height) :
    (b.alignedTo a hs).get x y = b.words.get (x.cast hs.1.symm) (y.cast hs.2.symm) :=
  Plane.get_cast hs.1 hs.2 b.words x y

theorem identical_iff (a b : Picture) :
    a.identical b = true ↔
      ∃ hs : a.SameSize b, ∀ x y, a.words.get x y = (b.alignedTo a hs).get x y := by
  unfold identical
  by_cases hs : a.SameSize b
  · rw [dif_pos hs, beq_iff_eq]
    constructor
    · intro he
      refine ⟨hs, fun x y => ?_⟩
      rw [Plane.get, he]
      rfl
    · rintro ⟨_, he⟩
      exact congrArg Plane.cells (Plane.ext_get he)
  · rw [dif_neg hs]
    simp [hs]

end Picture

namespace Bitmap

variable (a b : Bitmap)

theorem sameSize_iff : a.picture.SameSize b.picture ↔ a.width = b.width ∧ a.height = b.height := by
  have hs : a.picture.SameSize b.picture ↔ b.width = a.width ∧ b.height = a.height := Iff.rfl
  rw [hs, eq_comm, eq_comm (a := b.height)]

theorem sizes_ne_iff :
    a.width ≠ b.width ∨ a.height ≠ b.height ↔ ¬a.picture.SameSize b.picture := by
  rw [sameSize_iff]
  omega

theorem word?_eq_bind_row? (x y : Nat) : a.word? x y = (a.row? y).bind fun row => row[x]? := by
  by_cases hy : y < a.height
  · rw [a.row?_eq_some ⟨y, hy⟩, Option.bind_some]
    by_cases hx : x < a.width
    · rw [a.word?_eq_some ⟨x, hx⟩ ⟨y, hy⟩]
      simp [rowWords, hx]
    · rw [a.word?_eq_none (by omega), List.getElem?_eq_none (by rw [length_rowWords]; omega)]
  · rw [a.word?_eq_none (by omega), row?, dif_neg hy]
    rfl

theorem row?_eq_row?_iff (hs : a.picture.SameSize b.picture) (y : Nat) :
    a.row? y = b.row? y ↔ ∀ x, a.word? x y = b.word? x y := by
  have hh : b.height = a.height := hs.2
  constructor
  · intro he x
    rw [word?_eq_bind_row?, he, ← word?_eq_bind_row?]
  · intro he
    by_cases hy : y < a.height
    · have hy' : y < b.height := hh.symm ▸ hy
      simp only [word?_eq_bind_row?, a.row?_eq_some ⟨y, hy⟩, b.row?_eq_some ⟨y, hy'⟩,
        Option.bind_some] at he
      rw [a.row?_eq_some ⟨y, hy⟩, b.row?_eq_some ⟨y, hy'⟩, List.ext_getElem? he]
    · rw [row?, dif_neg hy, row?, dif_neg (by omega)]

theorem get_picture (x : Fin a.width) (y : Fin a.height) :
    a.picture.words.get x y = a.word x y := Plane.get_ofFn a.word x y

theorem get_picture_eq_iff (hs : a.picture.SameSize b.picture) (x : Fin a.width)
    (y : Fin a.height) :
    a.picture.words.get x y = (b.picture.alignedTo a.picture hs).get x y ↔
      a.word? x.val y.val = b.word? x.val y.val := by
  have ha := a.word?_eq_some x y
  have hb := b.word?_eq_some (x.cast hs.1.symm) (y.cast hs.2.symm)
  have hg : (b.picture.alignedTo a.picture hs).get x y =
      b.word (x.cast hs.1.symm) (y.cast hs.2.symm) :=
    (Picture.get_alignedTo _ _ hs x y).trans (b.get_picture _ _)
  rw [ha, hg, get_picture]
  exact ⟨fun he => (congrArg some he).trans hb.symm, fun he => Option.some.inj (he.trans hb)⟩

theorem identical_picture_iff :
    a.picture.identical b.picture = true ↔
      (b.width = a.width ∧ b.height = a.height) ∧ ∀ x y, a.word? x y = b.word? x y := by
  rw [Picture.identical_iff]
  constructor
  · rintro ⟨hs, he⟩
    refine ⟨hs, fun x y => ?_⟩
    by_cases hp : x < a.width ∧ y < a.height
    · exact (get_picture_eq_iff a b hs ⟨x, hp.1⟩ ⟨y, hp.2⟩).mp (he _ _)
    · have hw : b.width = a.width := hs.1
      have hh : b.height = a.height := hs.2
      rw [a.word?_eq_none (by omega), b.word?_eq_none (by omega)]
  · rintro ⟨hs, he⟩
    exact ⟨hs, fun x y => (get_picture_eq_iff a b hs x y).mpr (he x.val y.val)⟩

end Bitmap

end VisibleDifference
