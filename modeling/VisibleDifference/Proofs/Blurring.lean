import VisibleDifference.Pyramid.Levels

/-!
# Induction over taps and levels

A blurred value is reached from zero in twenty-five steps, and the highest level of a pyramid from
the source in seven blurs. What one step preserves, where the number of steps may count, holds of
the blurred values; what a blur preserves holds of all levels.
-/

namespace VisibleDifference

/-- A fold each of whose steps counts `m`. -/
theorem foldl_counted {β γ : Type} {Q : Nat → β → Prop} {f : β → γ → β} (m : Nat) {l : List γ}
    (hstep : ∀ n acc, ∀ c ∈ l, Q n acc → Q (n + m) (f acc c)) {n : Nat} {acc : β} (ha : Q n acc) :
    Q (n + m * l.length) (l.foldl f acc) := by
  induction l generalizing n acc with
  | nil => exact ha
  | cons c l ih =>
    rw [List.foldl_cons, List.length_cons, Nat.mul_succ, Nat.add_comm (m * l.length),
      ← Nat.add_assoc]
    exact ih (fun n acc d hd => hstep n acc d (List.mem_cons_of_mem c hd))
      (hstep n acc c List.mem_cons_self ha)

variable {α : Type} [MulAdd α] {w h : Nat} {k : Kernel α} {p : Plane α w h}

theorem Plane.tapSum_induction {P : α → Prop} {Q : Nat → α → Prop} (hp : ∀ x y, P (p.get x y))
    (hzero : Q 0 MulAdd.zero)
    (hstep : ∀ r c n v acc, P v → Q n acc → Q (n + 1) (MulAdd.mulAdd (k.weight r c) v acc))
    (x : Fin w) (y : Fin h) : Q 25 (p.tapSum k x y) := by
  apply foldl_counted 5 (l := List.finRange 5) (n := 0) _ hzero
  intro n acc r _ ha
  apply foldl_counted 1 (l := List.finRange 5) _ ha
  intro n acc c _ ha
  exact hstep r c n _ acc (hp _ _) ha

namespace Pyramid

variable {P : Nat → α → Prop}

theorem value_induction (hp : ∀ x y, P 0 (p.get x y))
    (hblur : ∀ n (q : Plane α w h), (∀ x y, P n (q.get x y)) → ∀ x y, P (n + 1) (q.tapSum k x y))
    (l : Fin levelCount) (x : Fin w) (y : Fin h) : P l.val ((of k p).value l x y) := by
  obtain ⟨l, hl⟩ := l
  induction l generalizing x y with
  | zero =>
    rw [value, level_of_zero k p _ rfl]
    exact hp x y
  | succ l ih =>
    have hl' : l < levelCount := Nat.lt_of_succ_lt hl
    rw [value, level_of_succ k p (l := ⟨l, hl'⟩) rfl, Plane.get_blur]
    exact hblur l _ (fun x y => ih x y hl') x y

end Pyramid

end VisibleDifference
