import VisibleDifference.Comparison.Visibility
import VisibleDifference.Proofs.Blurring
import VisibleDifference.Proofs.Single.Comparisons

/-!
# Ranges of levels and contrasts

The weights of the low-pass kernel are at most a quarter, so that a blur is at most eight times its
source, and the highest level of a pyramid at most `2 ^ 21` times. Surrounds are never darker than a
fixed luminance, which bounds contrasts.
-/

namespace VisibleDifference

open Binary

variable {w h : ℕ} {k : ℕ}

theorem weight_pos :
    ∀ r c : Fin 5, 0 < (Kernel.lowPass : Kernel Float32).weight r c := by
  decide +kernel

theorem upTo_weight (r c : Fin 5) :
    UpTo (2 ^ (-2 : ℤ)) ((Kernel.lowPass : Kernel Float32).weight r c) := by
  have hw : ∀ r c : Fin 5,
      (Value.ofSingle ((Kernel.lowPass : Kernel Float32).weight r c)).isUpTo (-2) = true := by
    decide +kernel
  exact upTo_of_isUpTo (hw r c)

/-- Each step adds at most a quarter of the bound of the source. -/
theorem upTo_tapSum (hk : k ≤ 104) {p : Plane Float32 w h} (hp : ∀ x y, UpTo (2 ^ k) (p.get x y))
    (x : Fin w) (y : Fin h) : UpTo (2 ^ (k + 3)) (p.tapSum Kernel.lowPass x y) := by
  have hquarter : (2 : ℝ) ^ (-2 : ℤ) * 2 ^ k = 2 ^ (k - 2 : ℤ) := by
    rw [← zpow_natCast, ← zpow_add₀ two_ne_zero, neg_add_eq_sub]
  have hsum : 25 < 2 ^ 24 → UpTo ((25 : ℕ) * 2 ^ (k - 2 : ℤ)) (p.tapSum Kernel.lowPass x y) := by
    refine Plane.tapSum_induction (P := UpTo (2 ^ k))
      (Q := fun n acc => n < 2 ^ 24 → UpTo (n * 2 ^ (k - 2 : ℤ)) acc) hp (fun _ => ?_) ?_ x y
    · rw [Nat.cast_zero, zero_mul]
      exact ⟨0, reading_zero, le_rfl⟩
    · intro r c n v acc hv hacc hn
      refine upTo_mulAdd (upTo_weight r c) hv (hacc (by omega))
        ⟨n + 1, k - 2, hn, by omega, by omega, rfl⟩ ?_
      rw [hquarter, Nat.cast_succ]
      exact le_of_eq (by ring)
  refine (hsum (by decide)).mono ?_
  rw [← hquarter, pow_add]
  norm_num
  linarith [pow_pos (two_pos (α := ℝ)) k]

/-- Seven blurs of a plane of at most `2 ^ k`. -/
theorem upTo_value (hk : k ≤ 86) {p : Plane Float32 w h} (hp : ∀ x y, UpTo (2 ^ k) (p.get x y))
    (l : Fin levelCount) (x : Fin w) (y : Fin h) :
    UpTo (2 ^ (k + 21)) ((Pyramid.of Kernel.lowPass p).value l x y) := by
  have hlevel : l.val ≤ 7 →
      UpTo (2 ^ (k + 3 * l.val)) ((Pyramid.of Kernel.lowPass p).value l x y) := by
    refine Pyramid.value_induction (P := fun n v => n ≤ 7 → UpTo (2 ^ (k + 3 * n)) v)
      (fun x y _ => hp x y) (fun n q hq x y hn => ?_) l x y
    exact upTo_tapSum (by omega) (fun x y => hq x y (by omega)) x y
  have hl : l.val ≤ 7 := Nat.le_of_lt_succ l.isLt
  exact (hlevel hl).mono (pow_le_pow_right₀ one_le_two (by omega))

namespace Viewing

theorem darkest_pos : AtLeast (2 ^ (-17 : ℤ)) darkest := atLeast_of_isAtLeast (by decide +kernel)

theorem get_contrasts (v : Viewing w h) (x : Fin w) (y : Fin h) (i : Fin bandCount) :
    (v.contrasts x y).get i = bandContrast darkest v.leftScales v.rightScales x y i :=
  Vector.getElem_ofFn i.isLt

theorem adaptation_pos (v : Viewing w h) (x : Fin w) (y : Fin h) :
    AtLeast (2 ^ (-17 : ℤ)) (v.adaptation x y) := atLeast_larger _ darkest_pos (by positivity)

end Viewing

theorem upTo_bandContrast {p q : Pyramid Float32 w h} {x : Fin w} {y : Fin h} (hk : k ≤ 109)
    (hp : ∀ l, UpTo (2 ^ k) (p.value l x y)) (hq : ∀ l, UpTo (2 ^ k) (q.value l x y))
    (i : Fin bandCount) :
    UpTo (2 ^ (k + 18)) (bandContrast Viewing.darkest p q x y i) := by
  have hchange {r : Pyramid Float32 w h} (hr : ∀ l, UpTo (2 ^ k) (r.value l x y)) :
      UpTo (2 ^ (k + 1)) (r.value (ownLevel i) x y - r.value (bandLevel i 1) x y).abs :=
    upTo_abs (bounded_sub (hr _).bounded (hr _).bounded (Grid.two_pow (by omega))
      (by rw [pow_succ]; linarith))
  refine upTo_div (upTo_larger (hchange hp) (hchange hq))
    (atLeast_larger _ Viewing.darkest_pos (by positivity)) (by positivity)
    (Grid.two_pow (by omega)) ?_
  rw [← zpow_natCast, ← zpow_natCast, ← zpow_add₀ two_ne_zero]
  exact zpow_le_zpow_right₀ one_le_two (by push_cast; omega)

section Infinite

variable {p q : Pyramid Float32 w h} {x : Fin w} {y : Fin h}

/-- A plane that is infinite everywhere stays so. -/
theorem value_infinite {p : Plane Float32 w h} (hp : ∀ x y, reading (p.get x y) = .infinite false)
    (l : Fin levelCount) (x : Fin w) (y : Fin h) :
    reading ((Pyramid.of Kernel.lowPass p).value l x y) = .infinite false := by
  refine Pyramid.value_induction (P := fun _ v => reading v = .infinite false) hp
    (fun _ q hq x y => ?_) l x y
  -- the sum is infinite after the first step
  have hsum : reading (q.tapSum Kernel.lowPass x y) = .infinite false ∨ 25 = 0 ∧ _ :=
    Plane.tapSum_induction (P := fun v => reading v = .infinite false)
      (Q := fun n acc => reading acc = .infinite false ∨ n = 0 ∧ AtLeast 0 acc) hq
      (.inr ⟨rfl, .inr ⟨0, reading_zero, le_rfl⟩⟩)
      (fun r c _ v acc hv hacc => .inl (reading_mulAdd_infinite (upTo_weight r c) (weight_pos r c)
        hv (hacc.elim .inl And.right))) x y
  exact hsum.resolve_right fun h => nomatch h.1

theorem bandContrast_nan {i : Fin bandCount}
    (hp : ∀ l, reading (p.value l x y) = .infinite false)
    (hq : ∀ l, reading (q.value l x y) = .infinite false) (floor : Float32) :
    reading (bandContrast floor p q x y i) = .nan := by
  have hchange {r : Pyramid Float32 w h} (hr : ∀ l, reading (r.value l x y) = .infinite false) :
      reading (r.value (ownLevel i) x y - r.value (bandLevel i 1) x y).abs = .nan := by
    rw [reading_abs, reading_infinite_sub (hr _) (hr _)]
    rfl
  have hlarger : reading (larger (p.value (ownLevel i) x y - p.value (bandLevel i 1) x y).abs
      (q.value (ownLevel i) x y - q.value (bandLevel i 1) x y).abs) = .nan := by
    rw [larger, if_pos (isNaN_iff_reading.mpr (hchange hp))]
    exact hchange hq
  exact nan_div hlarger _

end Infinite

end VisibleDifference
