import VisibleDifference.Proofs.Faults
import VisibleDifference.Proofs.SamePixels

/-!
# Verdicts and what is perceived

Comparing refines measuring: it fails with the same fault, finds the same where a pixel differs, and
finds nothing where all are equal. The threshold enters into one comparison only, which
`compare_threshold` makes an equation; so a match stays one under a greater threshold.
-/

namespace VisibleDifference

namespace Picture

variable (c : Conditions) (a b : Picture)

theorem fault?_threshold (t : Nat) :
    fault? { c with threshold := t } a b = fault? c a b := rfl

theorem compare_eq_error_iff (fault : Fault) :
    compare c a b = .error fault ↔ fault? c a b = some fault := by
  cases hf : fault? c a b with
  | some fault' =>
    rw [compare_of_fault hf, Except.error.injEq, Option.some.injEq]
  | none =>
    obtain ⟨hv, hs⟩ := fault?_eq_none_iff.mp hf
    cases hi : a.identical b with
    | true => simp [compare_of_identical hv hi]
    | false => simp [compare_of_not_identical hv hs hi]

theorem perceive_eq_error_iff (fault : Fault) :
    perceive c a b = .error fault ↔ fault? c a b = some fault := by
  cases hf : fault? c a b with
  | some fault' =>
    rw [perceive_of_fault hf, Except.error.injEq, Option.some.injEq]
  | none =>
    obtain ⟨hv, hs⟩ := fault?_eq_none_iff.mp hf
    simp [perceive_of_sameSize hv hs]

/-- The verdict under another threshold. -/
theorem compare_threshold (t : Nat) :
    compare { c with threshold := t } a b = (compare c a b).map fun v =>
      { v with isMatch := v.isIdentical || decide (v.finding.count < t) } := by
  cases hf : fault? c a b with
  | some fault =>
    rw [compare_of_fault hf, compare_of_fault ((fault?_threshold c a b t).trans hf)]
    rfl
  | none =>
    obtain ⟨hv, hs⟩ := fault?_eq_none_iff.mp hf
    have hv' : ({ c with threshold := t } : Conditions).validate = .ok () := hv
    cases hi : a.identical b with
    | true =>
      rw [compare_of_identical hv hi, compare_of_identical hv' hi]
      rfl
    | false =>
      rw [compare_of_not_identical hv hs hi, compare_of_not_identical hv' hs hi]
      rfl

variable {c a b}

theorem isMatch_of_compare {v : Verdict} (hv : compare c a b = .ok v) :
    v.isMatch = (v.isIdentical || decide (v.finding.count < c.threshold)) := by
  have ht : compare c a b = (compare c a b).map fun v =>
      { v with isMatch := v.isIdentical || decide (v.finding.count < c.threshold) } :=
    compare_threshold c a b c.threshold
  rw [hv, Except.map, Except.ok.injEq] at ht
  exact congrArg Verdict.isMatch ht

/-- Where a pixel differs, the verdict is on what is perceived. -/
theorem compare_of_perceive {finding : Finding} (hp : perceive c a b = .ok finding)
    (hi : a.identical b = false) :
    compare c a b = .ok ⟨decide (finding.count < c.threshold), false, finding⟩ := by
  obtain ⟨hv, hs⟩ := validate_and_sameSize hp
  rw [perceive_of_sameSize hv hs, Except.ok.injEq] at hp
  rw [compare_of_not_identical hv hs hi, hp]

theorem isMarked?_clear {w h x y : Nat} (hx : x < w) (hy : y < h) :
    (DifferenceMap.clear w h).isMarked? x y = some false := by
  rw [DifferenceMap.isMarked?, dif_pos ⟨hx, hy⟩]
  exact congrArg some (Plane.get_fill _ _ _)

theorem isSome_map_nothingFound : (nothingFound c a).map.isSome = c.wantsMap := by
  rw [nothingFound]
  cases c.wantsMap with
  | false => rfl
  | true => rfl

theorem eq_clear_of_nothingFound {map : DifferenceMap} (hm : (nothingFound c a).map = some map) :
    map = DifferenceMap.clear a.width a.height := by
  rw [nothingFound] at hm
  cases hw : c.wantsMap with
  | false => simp [hw] at hm
  | true => simpa [hw, eq_comm] using hm

end Picture

namespace Bitmap

open Picture (perceive compare)

/-- For buffers of any shape and conditions of any kind, `compare` differs from `perceive` only in
what it makes of equal pixels and of the threshold. -/
theorem compare_refines_perceive (a b : Bitmap) (c : Conditions) :
    (∀ fault, compare c a.picture b.picture = .error fault ↔
      perceive c a.picture b.picture = .error fault) ∧
    (∀ finding verdict, perceive c a.picture b.picture = .ok finding →
      compare c a.picture b.picture = .ok verdict → (∃ x y, a.word? x y ≠ b.word? x y) →
      verdict.finding = finding ∧ verdict.isIdentical = false ∧
        (verdict.isMatch = true ↔ finding.count < c.threshold)) ∧
    (∀ finding verdict, perceive c a.picture b.picture = .ok finding →
      compare c a.picture b.picture = .ok verdict → (∀ x y, a.word? x y = b.word? x y) →
      verdict.isMatch = true ∧ verdict.isIdentical = true ∧ verdict.finding.count = 0 ∧
        verdict.finding.map.isSome = c.wantsMap ∧
        ∀ map, verdict.finding.map = some map →
          (map.width = a.width ∧ map.height = a.height) ∧
          ∀ x < a.width, ∀ y < a.height, map.isMarked? x y = some false) ∧
    ∀ t t',
      (∀ fault, compare { c with threshold := t } a.picture b.picture = .error fault →
        compare { c with threshold := t' } a.picture b.picture = .error fault) ∧
      ∀ verdict, compare { c with threshold := t } a.picture b.picture = .ok verdict →
        ∃ isMatch, compare { c with threshold := t' } a.picture b.picture =
            .ok { verdict with isMatch } ∧
          (t ≤ t' → verdict.isMatch = true → isMatch = true) := by
  refine ⟨fun fault => ?_, ?_, ?_, fun t t' => ⟨fun fault hf => ?_, fun verdict hv => ?_⟩⟩
  · rw [Picture.compare_eq_error_iff, Picture.perceive_eq_error_iff]
  · rintro finding verdict hp hv ⟨x, y, hne⟩
    have hi : a.picture.identical b.picture = false := by
      rw [Bool.eq_false_iff, ne_eq, identical_picture_iff]
      exact fun he => hne (he.2 x y)
    rw [Picture.compare_of_perceive hp hi, Except.ok.injEq] at hv
    subst hv
    exact ⟨rfl, rfl, decide_eq_true_iff⟩
  · intro finding verdict hp hv he
    obtain ⟨hc, hs⟩ := Picture.validate_and_sameSize hp
    have hi := (identical_picture_iff a b).mpr ⟨hs, he⟩
    rw [Picture.compare_of_identical hc hi, Except.ok.injEq] at hv
    subst hv
    refine ⟨rfl, rfl, rfl, Picture.isSome_map_nothingFound, fun map hm => ?_⟩
    obtain rfl := Picture.eq_clear_of_nothingFound hm
    exact ⟨⟨rfl, rfl⟩, fun x hx y hy => Picture.isMarked?_clear hx hy⟩
  · rw [Picture.compare_eq_error_iff] at hf ⊢
    exact hf
  · have ht := Picture.isMatch_of_compare hv
    have ht' := Picture.compare_threshold { c with threshold := t } a.picture b.picture t'
    rw [hv] at ht'
    refine ⟨_, ht', fun hle hm => ?_⟩
    rw [ht, Bool.or_eq_true, decide_eq_true_eq] at hm
    rw [Bool.or_eq_true, decide_eq_true_eq]
    exact hm.imp_right fun hlt => Nat.lt_of_lt_of_le hlt hle

end Bitmap

end VisibleDifference
