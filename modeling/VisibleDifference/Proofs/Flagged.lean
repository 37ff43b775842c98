import VisibleDifference.Proofs.Drawing
import VisibleDifference.Proofs.Unchanged

/-!
# Flagged pixels and drawn differences

The map of visible differences and the picture of exact ones are made by computations that have
nothing in common. They meet where a pixel has one colour in both pictures: however different the
pixels around it are, it is flagged only if its factor is NaN, so elsewhere each flagged pixel is
one that is drawn.
-/

namespace VisibleDifference

namespace Bitmap

open Picture (perceive)

variable {w h : Nat} {c : Conditions} {a b : Bitmap} {ha : a.width = w ∧ a.height = h}
  {hb : b.width = w ∧ b.height = h}

/-- Whether a pixel has one straight colour in both bitmaps. -/
def SameColourAt (a b : Bitmap) (x y : Nat) : Prop :=
  (a.word? x y).map straightColour = (b.word? x y).map straightColour

instance (a b : Bitmap) (x y : Nat) : Decidable (a.SameColourAt b x y) :=
  inferInstanceAs (Decidable (_ = _))

theorem sameColourAt_iff (ha : a.width = w ∧ a.height = h) (hb : b.width = w ∧ b.height = h)
    (x : Fin w) (y : Fin h) :
    a.SameColourAt b x y ↔
      straightColour ((a.plane ha).get x y) = straightColour ((b.plane hb).get x y) := by
  rw [SameColourAt, a.word?_eq_get_plane ha, b.word?_eq_get_plane hb, Option.map_some,
    Option.map_some, Option.some.injEq]

theorem differs_seen_of_sameColourAt (hv : c.validate = .ok ()) {x : Fin w} {y : Fin h}
    (hs : a.SameColourAt b x y) :
    (seen c a b ha hb).differs x y = ((seen c a b ha hb).factor x y).isNaN :=
  Viewing.differs_under_of_unchanged hv ((sameColourAt_iff ha hb x y).mp hs)

theorem mem_unmeasured (x : Fin w) (y : Fin h) :
    (x, y) ∈ unmeasured c a b ha hb ↔ ((seen c a b ha hb).factor x y).isNaN = true := by
  simp [unmeasured]

theorem mem_differing (p q : Plane UInt32 w h) (x : Fin w) (y : Fin h) :
    (x, y) ∈ Difference.differing p q ↔ p.get x y ≠ q.get x y := by
  simp [Difference.differing]

/-- What looks different has been changed, short of a NaN. -/
theorem visible_subset_differing (hv : c.validate = .ok ()) :
    (seen c a b ha hb).visible ⊆
      Difference.differing (a.plane ha) (b.plane hb) ∪ unmeasured c a b ha hb := by
  rintro ⟨x, y⟩ hp
  rw [Viewing.mem_visible] at hp
  rw [Finset.mem_union, mem_differing, mem_unmeasured]
  by_cases he : (a.plane ha).get x y = (b.plane hb).get x y
  · have hs : a.SameColourAt b x y := (sameColourAt_iff ha hb x y).mpr (by rw [he])
    rw [differs_seen_of_sameColourAt hv hs] at hp
    exact .inr hp
  · exact .inl he

theorem card_visible_le_changed (hv : c.validate = .ok ()) (ha : a.width = w ∧ a.height = h)
    (hb : b.width = w ∧ b.height = h) :
    (seen c a b ha hb).visible.card ≤
      (Difference.ofPlanes (a.plane ha) (b.plane hb)).changed +
        (unmeasured c a b ha hb).card := by
  rw [Difference.changed_ofPlanes]
  exact (Finset.card_le_card (visible_subset_differing hv)).trans (Finset.card_union_le _ _)

/-- A pixel of one colour is flagged exactly if its factor is NaN. So a pixel that is flagged and
has a factor is drawn in the picture of exact differences, and if all pixels have one, no more of
them are found to look different than have been changed. -/
theorem same_colours_are_flagged_for_nan_only (hv : c.validate = .ok ())
    (ha : a.width = w ∧ a.height = h) (hb : b.width = w ∧ b.height = h) :
    ∃ (flags : Plane Bool w h) (count changed greatest : Nat) (drawing : Plane UInt32 w h),
      perceive { c with wantsMap := true } a.picture b.picture =
        .ok ⟨count, some ⟨w, h, flags⟩⟩ ∧
      perceive { c with wantsMap := false } a.picture b.picture = .ok ⟨count, none⟩ ∧
      a.picture.difference b.picture = .ok ⟨changed, greatest, ⟨w, h, drawing⟩⟩ ∧
      (∀ (x : Fin w) (y : Fin h), a.SameColourAt b x y →
        (flags.get x y = true ↔ ((seen c a b ha hb).factor x y).isNaN = true)) ∧
      (∀ (x : Fin w) (y : Fin h), ((seen c a b ha hb).factor x y).isNaN = false →
        flags.get x y = true → drawing.get x y ≠ 0xff000000) ∧
      ((∀ x y, ((seen c a b ha hb).factor x y).isNaN = false) → count ≤ changed) ∧
      count ≤ changed + (unmeasured c a b ha hb).card := by
  have hmap : ({ c with wantsMap := true } : Conditions).validate = .ok () := hv
  have hcount : ({ c with wantsMap := false } : Conditions).validate = .ok () := hv
  have hle := card_visible_le_changed hv ha hb
  refine ⟨.ofFn (seen c a b ha hb).differs, (seen c a b ha hb).visible.card, _, _,
    Difference.drawing (a.plane ha) (b.plane hb), ?_, ?_, difference_eq_ofPlanes ha hb,
    fun x y hs => ?_, fun x y hnan hf => ?_, fun hnan => ?_, hle⟩
  · rw [perceive_eq_find hmap ha hb, Viewing.find_eq]
    rfl
  · rw [perceive_eq_find hcount ha hb, Viewing.find_eq]
    rfl
  · rw [Plane.get_ofFn, differs_seen_of_sameColourAt hv hs]
  · rw [Plane.get_ofFn] at hf
    rw [Difference.drawing, Plane.get_ofFn, ne_eq, drawn_eq_black_iff, ← ne_eq, ← mem_differing]
    have hp := visible_subset_differing hv ((Viewing.mem_visible _ (x, y)).mpr hf)
    rw [Finset.mem_union, mem_unmeasured, hnan] at hp
    exact hp.resolve_right Bool.false_ne_true
  · rwa [unmeasured_eq_empty_iff.mpr hnan, Finset.card_empty, Nat.add_zero] at hle

/-- Sixteen pixels in one row, black but for a white one at the end. -/
def litRow : Bitmap where
  __ := blackRow 0
  bytes := ⟨Array.replicate 60 0 ++ Array.replicate 4 255⟩
  needed_le := by decide

/-- The pixels beside the one that is lit are not flagged, though they see it. -/
theorem black_beside_white_is_not_flagged :
    ({} : Conditions).validate = .ok () ∧
    (∀ x < 15, (blackRow 0).SameColourAt litRow x 0) ∧
    ∃ (flags : Plane Bool 16 1) (count : Nat),
      perceive { wantsMap := true } (blackRow 0).picture litRow.picture =
        .ok ⟨count, some ⟨16, 1, flags⟩⟩ ∧
      (∀ x : Fin 16, x.val < 15 → flags.get x 0 = false) ∧ count ≤ 1 := by
  have hv : ({} : Conditions).validate = .ok () := by rfl
  have ha : (blackRow 0).width = 16 ∧ (blackRow 0).height = 1 := ⟨rfl, rfl⟩
  have hb : litRow.width = 16 ∧ litRow.height = 1 := ⟨rfl, rfl⟩
  have ho : ({} : Conditions).Ordinary 16 :=
    ⟨by decide +kernel, by decide +kernel, by decide +kernel⟩
  have hsame : ∀ x < 15, (blackRow 0).SameColourAt litRow x 0 := by decide +kernel
  have hchanged : ((blackRow 0).picture.difference litRow.picture).toOption.map
      Difference.changed = some 1 := by decide +kernel
  have hnan (x : Fin 16) (y : Fin 1) : ((seen {} (blackRow 0) litRow ha hb).factor x y).isNaN =
      false := Bool.eq_false_iff.mpr (Viewing.not_nan_factor hv ho x y)
  obtain ⟨flags, count, changed, greatest, drawing, hmap, -, hd, hflag, -, hle, -⟩ :=
    same_colours_are_flagged_for_nan_only hv ha hb
  rw [hd] at hchanged
  cases hchanged
  refine ⟨hv, hsame, flags, count, hmap, fun x hx => ?_, hle hnan⟩
  have hf := hflag x 0 (hsame x hx)
  rw [hnan x 0] at hf
  exact Bool.eq_false_iff.mpr (mt hf.mp Bool.false_ne_true)

end Bitmap

end VisibleDifference
