import VisibleDifference.Proofs.Marking
import VisibleDifference.Proofs.Single.Signs
import VisibleDifference.Proofs.Verdict

/-!
# Exchanging the pictures

Contrasts, adaptation and both distances of a pixel treat the two pictures alike, so the same pixels
look different whichever picture comes first. What is found, the verdict and the order in which
faults are looked for stay the same; a difference in size is reported with the sizes exchanged.
-/

namespace VisibleDifference

open Binary (larger larger_abs_comm abs_sub_comm mul_self_abs mulAdd mulAdd_self_abs)

variable {w h : Nat}

theorem bandContrast_comm (floor : Float32) (p q : Pyramid Float32 w h) (x : Fin w) (y : Fin h) :
    bandContrast floor p q x y = bandContrast floor q p x y := by
  have hmax (s t : Float32) : Magnitude.larger (Magnitude.magnitude s) (Magnitude.magnitude t) =
      Magnitude.larger (Magnitude.magnitude t) (Magnitude.magnitude s) := larger_abs_comm s t
  funext i
  rw [bandContrast, bandContrast, hmax, hmax (p.value (bandLevel i 2) x y)]

namespace Viewing

def exchanged (v : Viewing w h) : Viewing w h where
  left := v.right
  right := v.left
  leftScales := v.rightScales
  rightScales := v.leftScales
  bands := v.bands

variable (v : Viewing w h) (x : Fin w) (y : Fin h)

theorem contrasts_exchanged : v.exchanged.contrasts x y = v.contrasts x y :=
  congrArg Vector.ofFn (bandContrast_comm darkest v.rightScales v.leftScales x y)

theorem adaptation_exchanged : v.exchanged.adaptation x y = v.adaptation x y := by
  simp only [adaptation, exchanged, Binary.add_comm (v.rightScales.value _ x y)]

theorem factor_exchanged : v.exchanged.factor x y = v.factor x y := by
  rw [factor, factor, contrasts_exchanged, adaptation_exchanged]
  rfl

theorem luminanceDistance_exchanged :
    v.exchanged.luminanceDistance x y = v.luminanceDistance x y := abs_sub_comm ..

/-- The squares of the two coordinate differences forget their signs. -/
theorem colourDistance_exchanged : v.exchanged.colourDistance x y = v.colourDistance x y := by
  have hsquare (s t : Float32) : (s - t) * (s - t) = (t - s) * (t - s) := by
    rw [← mul_self_abs, abs_sub_comm, mul_self_abs]
  have hsum (s t c : Float32) : mulAdd (s - t) (s - t) c = mulAdd (t - s) (t - s) c := by
    rw [← mulAdd_self_abs, abs_sub_comm, mulAdd_self_abs]
  simp only [colourDistance, adaptation_exchanged]
  simp only [exchanged]
  rw [hsquare, hsum]

theorem differs_exchanged : v.exchanged.differs x y = v.differs x y := by
  rw [differs, differs, factor_exchanged, luminanceDistance_exchanged, adaptation_exchanged,
    colourDistance_exchanged]

theorem find_exchanged (wantsMap : Bool) : v.exchanged.find wantsMap = v.find wantsMap := by
  have hd : v.exchanged.differs = v.differs :=
    funext fun x => funext fun y => v.differs_exchanged x y
  rw [find_eq, find_eq, visible, visible, hd]

end Viewing

/-- A fault as it is reported for the pictures in the other order. -/
def Fault.exchanged : Fault → Fault
  | .sizesDiffer w h w₂ h₂ => .sizesDiffer w₂ h₂ w h
  | fault => fault

namespace Picture

variable {c : Conditions} {a b : Picture}

theorem SameSize.exchange (hs : a.SameSize b) : b.SameSize a := ⟨hs.1.symm, hs.2.symm⟩

theorem measure_exchange (c : Conditions) (hs : a.SameSize b) :
    measure c b a hs.exchange = measure c a b hs := by
  obtain ⟨w, h, left⟩ := a
  obtain ⟨w', h', right⟩ := b
  obtain ⟨rfl, rfl⟩ : w' = w ∧ h' = h := hs
  have hl : Picture.alignedTo ⟨w', h', left⟩ ⟨w', h', right⟩ ⟨rfl, rfl⟩ = left :=
    Plane.cast_rfl left
  have hr : Picture.alignedTo ⟨w', h', right⟩ ⟨w', h', left⟩ ⟨rfl, rfl⟩ = right :=
    Plane.cast_rfl right
  simp only [measure, hl, hr]
  exact Viewing.find_exchanged (.of (.of _ _ left) (.of _ _ right) _) _

theorem identical_exchange (a b : Picture) : b.identical a = a.identical b := by
  by_cases hs : a.SameSize b
  · obtain ⟨w, h, left⟩ := a
    obtain ⟨w', h', right⟩ := b
    obtain ⟨rfl, rfl⟩ : w' = w ∧ h' = h := hs
    rw [identical, dif_pos ⟨rfl, rfl⟩, identical, dif_pos ⟨rfl, rfl⟩]
    exact BEq.comm
  · have hs' : ¬b.SameSize a := fun h => hs h.exchange
    rw [identical, dif_neg hs', identical, dif_neg hs]

theorem nothingFound_exchange (c : Conditions) (hs : a.SameSize b) :
    nothingFound c b = nothingFound c a := by
  rw [nothingFound, nothingFound, hs.1, hs.2]

theorem fault?_exchange (c : Conditions) (a b : Picture) :
    fault? c b a = (fault? c a b).map Fault.exchanged := by
  have hs : b.SameSize a ↔ a.SameSize b := ⟨SameSize.exchange, SameSize.exchange⟩
  rw [fault?, fault?]
  cases c.firstOutOfRange with
  | some q => rfl
  | none =>
    simp only [hs]
    split_ifs <;> rfl

theorem perceive_exchange (c : Conditions) (a b : Picture) :
    perceive c b a = (perceive c a b).mapError Fault.exchanged := by
  have hf' := fault?_exchange c a b
  cases hf : fault? c a b with
  | some fault =>
    rw [hf] at hf'
    rw [perceive_of_fault hf, perceive_of_fault hf']
    rfl
  | none =>
    obtain ⟨hv, hs⟩ := fault?_eq_none_iff.mp hf
    rw [perceive_of_sameSize hv hs, perceive_of_sameSize hv hs.exchange, measure_exchange c hs]
    rfl

theorem compare_exchange (c : Conditions) (a b : Picture) :
    compare c b a = (compare c a b).mapError Fault.exchanged := by
  have hf' := fault?_exchange c a b
  cases hf : fault? c a b with
  | some fault =>
    rw [hf] at hf'
    rw [compare_of_fault hf, compare_of_fault hf']
    rfl
  | none =>
    obtain ⟨hv, hs⟩ := fault?_eq_none_iff.mp hf
    have hi' := identical_exchange a b
    cases hi : a.identical b with
    | true =>
      rw [hi] at hi'
      rw [compare_of_identical hv hi, compare_of_identical hv hi', nothingFound_exchange c hs]
      rfl
    | false =>
      rw [hi] at hi'
      rw [compare_of_not_identical hv hs hi, compare_of_not_identical hv hs.exchange hi',
        measure_exchange c hs]
      rfl

end Picture

namespace Bitmap

/-- Which picture comes first does not matter to what is found or to the verdict, nor, but for the
order of two sizes, to a fault. -/
theorem comparisons_are_symmetric (a b : Bitmap) (c : Conditions) :
    Picture.perceive c b.picture a.picture =
        (Picture.perceive c a.picture b.picture).mapError Fault.exchanged ∧
      Picture.compare c b.picture a.picture =
        (Picture.compare c a.picture b.picture).mapError Fault.exchanged :=
  ⟨Picture.perceive_exchange c _ _, Picture.compare_exchange c _ _⟩

end Bitmap

end VisibleDifference
