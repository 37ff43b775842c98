import Mathlib.Tactic.Common
import VisibleDifference.Comparison.Verdict

/-!
# When pictures cannot be compared

The first viewing condition that is out of range is named before a difference in size, and there is
no other reason. Measuring and comparing fail with the same fault, and where there is none both
give what is measured.
-/

namespace VisibleDifference

namespace Conditions

variable (c : Conditions)

def value : Quantity → Float32
  | .gamma => c.gamma
  | .luminance => c.luminance
  | .fieldOfView => c.fieldOfView

def InRange (q : Quantity) : Prop :=
  (c.value q).isFinite = true ∧ 0 < c.value q ∧ (q = .fieldOfView → ¬180 ≤ c.value q)

instance (q : Quantity) : Decidable (c.InRange q) :=
  inferInstanceAs (Decidable (_ ∧ _ ∧ (_ → _)))

def check (q : Quantity) : Except Fault Unit :=
  if c.InRange q then .ok () else .error (.outOfRange q (c.value q))

theorem requirePositive_eq_check {q : Quantity} (hq : q ≠ .fieldOfView) :
    requirePositive q (c.value q) = c.check q := by
  simp only [requirePositive, check, InRange, hq, false_imp_iff, and_true]

theorem requirePositive_bind_eq_check :
    (requirePositive .fieldOfView c.fieldOfView >>= fun _ =>
      if 180 ≤ c.fieldOfView then .error (.outOfRange .fieldOfView c.fieldOfView) else .ok ()) =
      c.check .fieldOfView := by
  by_cases hp : c.fieldOfView.isFinite = true ∧ 0 < c.fieldOfView
  · by_cases hw : 180 ≤ c.fieldOfView
    · have hr : ¬c.InRange .fieldOfView := fun hr => hr.2.2 rfl hw
      rw [requirePositive, if_pos hp, check, if_neg hr]
      exact if_pos hw
    · have hr : c.InRange .fieldOfView := ⟨hp.1, hp.2, fun _ => hw⟩
      rw [requirePositive, if_pos hp, check, if_pos hr]
      exact if_neg hw
  · have hr : ¬c.InRange .fieldOfView := fun hr => hp ⟨hr.1, hr.2.1⟩
    rw [requirePositive, if_neg hp, check, if_neg hr]
    rfl

/-- Checks stop at the first quantity that is out of range. -/
theorem forM_check (order : List Quantity) :
    forM order c.check = match order.find? fun q => ¬c.InRange q with
      | none => .ok ()
      | some q => .error (.outOfRange q (c.value q)) := by
  induction order with
  | nil => rfl
  | cons q order ih =>
    rw [List.forM_cons, check]
    by_cases hq : c.InRange q
    · rw [if_pos hq, List.find?_cons_of_neg (by simpa using hq), ← ih]
      rfl
    · rw [if_neg hq, List.find?_cons_of_pos (by simpa using hq)]
      rfl

def firstOutOfRange : Option Quantity :=
  [.gamma, .luminance, .fieldOfView].find? fun q => ¬c.InRange q

theorem validate_eq :
    c.validate = match c.firstOutOfRange with
      | none => .ok ()
      | some q => .error (.outOfRange q (c.value q)) := by
  have hgamma := c.requirePositive_eq_check (q := .gamma) (by decide)
  have hluminance := c.requirePositive_eq_check (q := .luminance) (by decide)
  rw [firstOutOfRange, ← forM_check, List.forM_cons, List.forM_cons, List.forM_cons,
    List.forM_nil, bind_pure_unit, ← hgamma, ← hluminance, ← c.requirePositive_bind_eq_check]
  rfl

theorem inRange_of_validate {c : Conditions} (hv : c.validate = .ok ()) (q : Quantity) :
    c.InRange q := by
  rw [validate_eq] at hv
  cases hf : c.firstOutOfRange with
  | some q' =>
    rw [hf] at hv
    cases hv
  | none =>
    have hq := List.find?_eq_none.mp hf q (by cases q <;> decide)
    simpa using hq

end Conditions

namespace Picture

variable (c : Conditions) (a b : Picture)

/-- Why two pictures cannot be compared: a condition out of range, or else their sizes. -/
def fault? : Option Fault :=
  match c.firstOutOfRange with
  | some q => some (.outOfRange q (c.value q))
  | none => if a.SameSize b then none else some (a.sizeFault b)

variable {c a b}

theorem fault?_eq_none_iff : fault? c a b = none ↔ c.validate = .ok () ∧ a.SameSize b := by
  rw [fault?, c.validate_eq]
  cases c.firstOutOfRange with
  | some q => simp
  | none => simp

theorem fault?_cases {fault : Fault} (hf : fault? c a b = some fault) :
    c.validate = .error fault ∨
      c.validate = .ok () ∧ ¬a.SameSize b ∧ a.sizeFault b = fault := by
  rw [fault?] at hf
  rw [c.validate_eq]
  cases hq : c.firstOutOfRange with
  | some q =>
    rw [hq] at hf
    exact .inl (congrArg Except.error (Option.some.inj hf))
  | none =>
    rw [hq] at hf
    by_cases hs : a.SameSize b
    · simp [hs] at hf
    · simp only [if_neg hs, Option.some.injEq] at hf
      exact .inr ⟨rfl, hs, hf⟩

theorem perceive_of_fault {fault : Fault} (hf : fault? c a b = some fault) :
    perceive c a b = .error fault := by
  obtain hv | ⟨hv, hs, rfl⟩ := fault?_cases hf
  · rw [perceive, hv]
    rfl
  · rw [perceive, hv]
    simp only [dif_neg hs]
    rfl

theorem compare_of_fault {fault : Fault} (hf : fault? c a b = some fault) :
    compare c a b = .error fault := by
  obtain hv | ⟨hv, hs, rfl⟩ := fault?_cases hf
  · rw [compare, hv]
    rfl
  · rw [compare, hv]
    simp only [dif_neg hs]
    rfl

theorem perceive_of_sameSize (hv : c.validate = .ok ()) (hs : a.SameSize b) :
    perceive c a b = .ok (measure c a b hs) := by
  rw [perceive, hv]
  simp only [dif_pos hs]
  rfl

theorem validate_and_sameSize {finding : Finding} (hp : perceive c a b = .ok finding) :
    c.validate = .ok () ∧ a.SameSize b := by
  cases hf : fault? c a b with
  | none => exact fault?_eq_none_iff.mp hf
  | some fault =>
    rw [perceive_of_fault hf] at hp
    cases hp

theorem compare_of_identical (hv : c.validate = .ok ()) (hi : a.identical b = true) :
    compare c a b = .ok ⟨true, true, nothingFound c a⟩ := by
  have hs : a.SameSize b := by
    by_contra hs
    rw [identical, dif_neg hs] at hi
    cases hi
  rw [compare, hv]
  simp only [dif_pos hs, hi]
  rfl

theorem compare_of_not_identical (hv : c.validate = .ok ()) (hs : a.SameSize b)
    (hi : a.identical b = false) :
    compare c a b =
      .ok ⟨decide ((measure c a b hs).count < c.threshold), false, measure c a b hs⟩ := by
  rw [compare, hv]
  simp only [dif_pos hs, hi]
  rfl

end Picture

end VisibleDifference
