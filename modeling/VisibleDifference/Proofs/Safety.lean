import VisibleDifference.Proofs.Checked.Comparison
import VisibleDifference.Proofs.Faults
import VisibleDifference.Proofs.Shape

/-!
# Safety of comparisons

Two buffers that were accepted can always be compared. Checks, places and sizes hold for every shape
and whatever the pixels are; what remains are the faults that conditions and sizes are due.
-/

namespace VisibleDifference

theorem RawBitmap.addressable {r : RawBitmap} {b : Bitmap} (hb : r.bitmap = .ok b)
    (hn : r.bytes.size < addressLimit) : b.Addressable := by
  obtain ⟨bytes, width, height, stride⟩ := r
  cases stride with
  | none =>
    obtain ⟨rfl, _⟩ := Bitmap.shape_of_ofBytes hb
    exact hn
  | some stride =>
    obtain ⟨rfl, _⟩ := Bitmap.shape_of_ofBytes hb
    exact hn

namespace Bitmap

variable {a b : Bitmap}

/-- Comparing accepted buffers never traps, and fails exactly for the first condition that is out of
range or else for different sizes. -/
theorem comparisons_never_trap {ra rb : RawBitmap} (ha : ra.bitmap = .ok a)
    (hb : rb.bitmap = .ok b) (hna : ra.bytes.size < addressLimit)
    (hnb : rb.bytes.size < addressLimit) (c : Conditions) :
    (checkedPerceive c a b = .ok (Picture.perceive c a.picture b.picture) ∧
      checkedCompare c a b = .ok (Picture.compare c a.picture b.picture) ∧
      checkedIdentical a b = .ok (a.picture.identical b.picture) ∧
      checkedDifference a b = .ok ((a.picture.difference b.picture).map Difference.stored)) ∧
    (∀ q, c.firstOutOfRange = some q →
      checkedPerceive c a b = .ok (.error (.outOfRange q (c.value q))) ∧
      checkedCompare c a b = .ok (.error (.outOfRange q (c.value q)))) ∧
    (c.firstOutOfRange = none → ¬(a.width = b.width ∧ a.height = b.height) →
      checkedPerceive c a b = .ok (.error (.sizesDiffer a.width a.height b.width b.height)) ∧
      checkedCompare c a b = .ok (.error (.sizesDiffer a.width a.height b.width b.height))) ∧
    (c.firstOutOfRange = none → a.width = b.width ∧ a.height = b.height →
      (∃ finding, checkedPerceive c a b = .ok (.ok finding)) ∧
      ∃ verdict, checkedCompare c a b = .ok (.ok verdict)) ∧
    (¬(a.width = b.width ∧ a.height = b.height) →
      checkedDifference a b = .ok (.error (.sizesDiffer a.width a.height b.width b.height))) ∧
    (a.width = b.width ∧ a.height = b.height → ∃ d, checkedDifference a b = .ok (.ok d)) := by
  have haa := RawBitmap.addressable ha hna
  have hab := RawBitmap.addressable hb hnb
  rw [checkedPerceive_eq c a b haa hab, checkedCompare_eq c a b haa hab,
    checkedIdentical_eq a b haa hab, checkedDifference_eq a b haa hab, ← sameSize_iff a b]
  refine ⟨⟨rfl, rfl, rfl, rfl⟩, ?_, ?_, ?_, ?_, ?_⟩
  · intro q hq
    have hf : Picture.fault? c a.picture b.picture = some (.outOfRange q (c.value q)) := by
      rw [Picture.fault?, hq]
    rw [Picture.perceive_of_fault hf, Picture.compare_of_fault hf]
    exact ⟨rfl, rfl⟩
  · intro hc hs
    have hf : Picture.fault? c a.picture b.picture =
        some (.sizesDiffer a.width a.height b.width b.height) := by
      rw [Picture.fault?, hc]
      exact if_neg hs
    rw [Picture.perceive_of_fault hf, Picture.compare_of_fault hf]
    exact ⟨rfl, rfl⟩
  · intro hc hs
    have hv : c.validate = .ok () := by rw [c.validate_eq, hc]
    refine ⟨⟨_, congrArg Except.ok (Picture.perceive_of_sameSize hv hs)⟩, ?_⟩
    cases hi : a.picture.identical b.picture with
    | true => exact ⟨_, congrArg Except.ok (Picture.compare_of_identical hv hi)⟩
    | false => exact ⟨_, congrArg Except.ok (Picture.compare_of_not_identical hv hs hi)⟩
  · intro hs
    rw [Picture.difference, dif_neg hs]
    rfl
  · intro hs
    rw [Picture.difference, dif_pos hs]
    exact ⟨_, rfl⟩

/-- A packed pixel and one that is given a stride are compared without a trap. -/
theorem single_pixels_never_trap :
    (∃ a b, RawBitmap.bitmap ⟨⟨#[1, 2, 3, 255]⟩, 1, 1, none⟩ = .ok a ∧
      RawBitmap.bitmap ⟨⟨#[1, 2, 4, 255, 0]⟩, 1, 1, some 9⟩ = .ok b ∧
      checkedDifference a b = .ok ((a.picture.difference b.picture).map Difference.stored) ∧
      ∃ d, checkedDifference a b = .ok (.ok d)) ∧
    (ByteArray.mk #[1, 2, 3, 255]).size < addressLimit ∧
    (ByteArray.mk #[1, 2, 4, 255, 0]).size < addressLimit := by
  let a : Bitmap := ⟨⟨#[1, 2, 3, 255]⟩, 1, 1, 4, by decide, by decide⟩
  let b : Bitmap := ⟨⟨#[1, 2, 4, 255, 0]⟩, 1, 1, 9, by decide, by decide⟩
  have ha : RawBitmap.bitmap ⟨⟨#[1, 2, 3, 255]⟩, 1, 1, none⟩ = .ok a := by rfl
  have hb : RawBitmap.bitmap ⟨⟨#[1, 2, 4, 255, 0]⟩, 1, 1, some 9⟩ = .ok b := by rfl
  have hall := comparisons_never_trap ha hb (by decide) (by decide) {}
  exact ⟨⟨a, b, ha, hb, hall.1.2.2.2, hall.2.2.2.2.2 ⟨rfl, rfl⟩⟩, by decide, by decide⟩

end Bitmap

end VisibleDifference
