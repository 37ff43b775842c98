import VisibleDifference.Proofs.Single.Increasing
import VisibleDifference.Vision.Sensitivity

/-!
# The visible threshold rises, but for three seams

The smallest visible change is fitted in five pieces, and each of them rises with the adaptation
luminance. The published constants do not quite meet: at three of the four seams the next piece
begins below the end of the one before. It makes up for that within a short interval, so only two
luminances within it and on both sides of the seam can be out of order. The argument is about
pieces over any numbers, and is used for single precision and for the exact fit over the reals.
-/

namespace VisibleDifference

section Pieces

variable {α : Type} [LT α]

/-- Where one piece ends and the next one begins, with the interval in which they may disagree. -/
structure Seam (α : Type) where
  low : α
  mark : α
  high : α

/-- A first piece and the pieces that follow, each with the seam it begins at. -/
def joined [DecidableLT α] (f : α → α) : List (Seam α × (α → α)) → α → α
  | [], x => f x
  | (s, g) :: rest, x => if x < s.mark then f x else joined g rest x

theorem joined_eq_of_lt [DecidableLT α] {f : α → α} {pieces : List (Seam α × (α → α))} {x : α}
    (h : ∀ t ∈ pieces, x < t.1.mark) : joined f pieces x = f x := by
  cases pieces with
  | nil => rfl
  | cons t rest => exact if_pos (h t List.mem_cons_self)

variable [LE α]

/-- On both sides of the seam and within its interval. -/
def Seam.Spans (s : Seam α) (x y : α) : Prop := s.low ≤ x ∧ x < s.mark ∧ s.mark ≤ y ∧ y < s.high

def RisesFrom (a : α) (f : α → α) : Prop := ∀ ⦃x y⦄, a ≤ x → x ≤ y → f x ≤ f y

/-- A piece falls short of the one before by no more than the interval of the seam makes up for. -/
structure Seam.Fits (s : Seam α) (f g : α → α) : Prop where
  low_le : s.low ≤ s.mark
  le_high : s.mark ≤ s.high
  fromBelow : f s.low ≤ g s.mark
  toAbove : f s.mark ≤ g s.high

/-- Rising pieces whose seams fit and lie in order. -/
inductive Rising : α → (α → α) → List (Seam α × (α → α)) → Prop
  | last {a : α} {f : α → α} : RisesFrom a f → Rising a f []
  | seam {a : α} {f g : α → α} {s : Seam α} {rest : List (Seam α × (α → α))} : RisesFrom a f →
      s.Fits f g → (∀ t ∈ rest, s.high < t.1.low ∧ t.1.low ≤ t.1.mark) → Rising s.mark g rest →
        Rising a f ((s, g) :: rest)

/-- What the order of single precision has in common with that of the reals; `N` leaves out NaN. -/
structure Ordered (N : α → Prop) : Prop where
  trans : ∀ {x y z : α}, x ≤ y → y ≤ z → x ≤ z
  le_of_lt : ∀ {x y : α}, x < y → x ≤ y
  not_le_of_lt : ∀ {x y : α}, x < y → ¬y ≤ x
  lt_or_le : ∀ {x y : α}, N x → N y → x < y ∨ y ≤ x

namespace Ordered

variable {N : α → Prop} (o : Ordered N) {a x y : α} {f g : α → α} {s : Seam α}
  {rest pieces : List (Seam α × (α → α))}

include o

theorem refl (hx : N x) : x ≤ x := (o.lt_or_le hx hx).elim o.le_of_lt id

variable [DecidableLT α]

theorem joined_le (h : Rising a f pieces)
    (hN : ∀ t ∈ pieces, N t.1.low ∧ N t.1.mark ∧ N t.1.high) (hx : N x) (hy : N y) (ha : a ≤ x)
    (hxy : x ≤ y) (hspan : ∀ t ∈ pieces, ¬t.1.Spans x y) : joined f pieces x ≤ joined f pieces y := by
  induction h generalizing x with
  | last hf => exact hf ha hxy
  | @seam a f g s rest hf hs hrest hrise ih =>
    obtain ⟨hlow, hmark, hhigh⟩ := hN _ List.mem_cons_self
    have ih {z : α} := @ih z fun t ht => hN t (List.mem_cons_of_mem _ ht)
    -- up to the upper end of the interval no later seam matters
    have hlater {z : α} (hz : z ≤ s.high) (t) (ht : t ∈ rest) : ¬t.1.low ≤ z := fun hle =>
      o.not_le_of_lt (hrest t ht).1 (o.trans hle hz)
    have hjoined {z : α} (hz : z ≤ s.high) (hzN : N z) (hmz : s.mark ≤ z) (hzy : z ≤ y) :
        g z ≤ joined g rest y := by
      have hfirst : joined g rest z = g z := joined_eq_of_lt fun t ht =>
        (o.lt_or_le hzN (hN t (List.mem_cons_of_mem _ ht)).2.1).resolve_right fun hle =>
          hlater hz t ht (o.trans (hrest t ht).2 hle)
      rw [← hfirst]
      exact ih hzN hmz hzy fun t ht hspan => hlater hz t ht hspan.1
    by_cases hxm : x < s.mark
    · rw [joined, if_pos hxm]
      by_cases hym : y < s.mark
      · rw [joined, if_pos hym]
        exact hf ha hxy
      have hmy : s.mark ≤ y := (o.lt_or_le hy hmark).resolve_left hym
      rw [joined, if_neg hym]
      obtain hxl | hlx := o.lt_or_le hx hlow
      · have hstart : f x ≤ f s.low := hf ha (o.le_of_lt hxl)
        have hend : g s.mark ≤ joined g rest y := hjoined hs.le_high hmark (o.refl hmark) hmy
        exact o.trans (o.trans hstart hs.fromBelow) hend
      · have hhy : s.high ≤ y := (o.lt_or_le hy hhigh).resolve_left fun hyh =>
          hspan _ List.mem_cons_self ⟨hlx, hxm, hmy, hyh⟩
        have hstart : f x ≤ f s.mark := hf ha (o.le_of_lt hxm)
        have hend : g s.high ≤ joined g rest y := hjoined (o.refl hhigh) hhigh hs.le_high hhy
        exact o.trans (o.trans hstart hs.toAbove) hend
    · have hmx : s.mark ≤ x := (o.lt_or_le hx hmark).resolve_left hxm
      have hym : ¬y < s.mark := fun h => o.not_le_of_lt h (o.trans hmx hxy)
      rw [joined, if_neg hxm, joined, if_neg hym]
      exact ih hx hmx hxy fun t ht => hspan t (List.mem_cons_of_mem _ ht)

end Ordered

instance [DecidableLE α] [DecidableLT α] (s : Seam α) (x y : α) : Decidable (s.Spans x y) :=
  inferInstanceAs (Decidable (_ ∧ _ ∧ _ ∧ _))

instance [DecidableLE α] (s : Seam α) (f g : α → α) : Decidable (s.Fits f g) :=
  decidable_of_iff (s.low ≤ s.mark ∧ s.mark ≤ s.high ∧ f s.low ≤ g s.mark ∧ f s.mark ≤ g s.high)
    ⟨fun ⟨hl, hh, hb, ha⟩ => ⟨hl, hh, hb, ha⟩, fun h => ⟨h.1, h.2, h.3, h.4⟩⟩

end Pieces

section Fit

variable {α : Type} [OfScientific α] [Neg α] [Sub α]

/-- The seams at which the fit drops. -/
def drops (α : Type) [OfScientific α] [Neg α] : List (Seam α) :=
  [⟨-1.4534, -1.44, -1.428⟩, ⟨-0.018401, -0.0184, -0.018398⟩, ⟨1.8961, 1.9, 1.9032⟩]

/-- All pieces but the first. At their first seam they do not drop. -/
def laterPieces (rods cones : α → α) : List (Seam α × (α → α)) :=
  (⟨-3.94, -3.94, -3.94⟩, rods) :: (drops α).zip [(· - 0.395), cones, (· - 1.255)]

open Binary

theorem logThreshold_eq (a : Float32) : logThreshold a = joined (fun _ => -2.86)
    (laterPieces (fun a => power (mulAdd 0.405 a 1.6) 2.18 - 2.86)
      fun a => power (mulAdd 0.249 a 0.65) 2.7 - 0.72) a := rfl

/-- The fit over the reals. -/
noncomputable def exactLogThreshold (a : ℝ) : ℝ :=
  if a < -3.94 then -2.86
  else if a < -1.44 then (0.405 * a + 1.6) ^ (2.18 : ℝ) - 2.86
  else if a < -0.0184 then a - 0.395
  else if a < 1.9 then (0.249 * a + 0.65) ^ (2.7 : ℝ) - 0.72
  else a - 1.255

theorem exactLogThreshold_eq (a : ℝ) : exactLogThreshold a = joined (fun _ => -2.86)
    (laterPieces (fun a => (0.405 * a + 1.6) ^ (2.18 : ℝ) - 2.86)
      fun a => (0.249 * a + 0.65) ^ (2.7 : ℝ) - 0.72) a := rfl

theorem not_spans_laterPieces [LE α] [LT α] {rods cones : α → α} {x y : α}
    (h : ∀ s ∈ drops α, ¬s.Spans x y)
    (hfirst : ¬(⟨-3.94, -3.94, -3.94⟩ : Seam α).Spans x y) :
    ∀ t ∈ laterPieces rods cones, ¬t.1.Spans x y := by
  intro t ht
  obtain rfl | ht := List.mem_cons.mp ht
  · exact hfirst
  · exact h _ (List.of_mem_zip ht).1

section Single

variable {a k c d e : Float32}

theorem ordered_single : Ordered fun x : Float32 => ¬x.isNaN = true where
  trans := Binary.le_trans
  le_of_lt := Binary.le_of_lt
  not_le_of_lt hlt hle := Binary.not_lt_of_le hle hlt
  lt_or_le {x y} hx hy := by
    by_cases h : x < y
    · exact .inl h
    · exact .inr (le_of_not_lt hx hy h)

theorem risesFrom_sub (hd : d.isFinite = true) : RisesFrom a (· - d) := by
  intro x y _ hxy
  obtain ⟨s, r, hr⟩ := isFinite_iff.mp hd
  exact sub_mono hr hxy

theorem risesFrom_power (hk : 0 < k) (hk' : k.isFinite = true) (hc : c.isFinite = true)
    (he : 0 < e) (he' : e.isFinite = true) (hd : d.isFinite = true) (hpos : 0 < mulAdd k a c) :
    RisesFrom a fun x => power (mulAdd k x c) e - d := by
  intro x y hx hxy
  obtain ⟨b, hb⟩ := upTo_of_isFinite hk' hk
  obtain ⟨p, hp, hp', -⟩ := hb.pos hk
  obtain ⟨u, r, hr⟩ := isFinite_iff.mp hc
  obtain ⟨b', hb'⟩ := upTo_of_isFinite he' he
  have hbase : 0 < mulAdd k x c := Binary.lt_of_lt_of_le hpos (mulAdd_mono hr hp hp' hx)
  obtain ⟨v, q, hq⟩ := isFinite_iff.mp hd
  exact sub_mono hq (power_mono he hb' hbase (mulAdd_mono hr hp hp' hxy))

theorem rising_single : Rising a (fun _ => -2.86)
    (laterPieces (fun a => power (mulAdd 0.405 a 1.6) 2.18 - 2.86)
      fun a => power (mulAdd 0.249 a 0.65) 2.7 - 0.72) := by
  refine .seam (fun x y _ _ => by decide +kernel) (by decide +kernel) (by decide +kernel) ?_
  refine .seam (risesFrom_power ?_ ?_ ?_ ?_ ?_ ?_ ?_) (by decide +kernel) (by decide +kernel) ?_
  iterate 7 decide +kernel
  refine .seam (risesFrom_sub (by decide +kernel)) (by decide +kernel) (by decide +kernel) ?_
  refine .seam (risesFrom_power ?_ ?_ ?_ ?_ ?_ ?_ ?_) (by decide +kernel) (by decide +kernel) ?_
  iterate 7 decide +kernel
  exact .last (risesFrom_sub (by decide +kernel))

end Single

section Real

variable {a k c d e u v : ℝ}

theorem ordered_real : Ordered fun _ : ℝ => True where
  trans := le_trans
  le_of_lt := le_of_lt
  not_le_of_lt := not_le_of_gt
  lt_or_le _ _ := lt_or_ge _ _

theorem risesFrom_rpow (hk : 0 ≤ k) (he : 0 ≤ e) (hpos : 0 ≤ k * a + c) :
    RisesFrom a fun x => (k * x + c) ^ e - d := by
  intro x y hx hxy
  have hbase : 0 ≤ k * x + c := by nlinarith
  have hle : k * x + c ≤ k * y + c := by nlinarith
  exact sub_le_sub_right (Real.rpow_le_rpow hbase hle he) d

theorem rpow_pow_eq (hu : 0 ≤ u) {m n : ℕ} (he : e * n = m) : (u ^ e) ^ n = u ^ m := by
  rw [← Real.rpow_natCast, ← Real.rpow_mul hu, he, Real.rpow_natCast]

/-- Rational powers compare as whole ones. -/
theorem rpow_sub_le_iff (m n : ℕ) (hn : n ≠ 0) (he : e * n = m) (hu : 0 ≤ u) (hv : 0 ≤ v + d) :
    u ^ e - d ≤ v ↔ u ^ m ≤ (v + d) ^ n := by
  rw [sub_le_iff_le_add, ← rpow_pow_eq hu he]
  exact (pow_le_pow_iff_left₀ (Real.rpow_nonneg hu e) hv hn).symm

theorem le_rpow_sub_iff (m n : ℕ) (hn : n ≠ 0) (he : e * n = m) (hu : 0 ≤ u) (hv : 0 ≤ v + d) :
    v ≤ u ^ e - d ↔ (v + d) ^ n ≤ u ^ m := by
  rw [le_sub_iff_add_le, ← rpow_pow_eq hu he]
  exact (pow_le_pow_iff_left₀ hv (Real.rpow_nonneg hu e) hn).symm

theorem rising_real : Rising a (fun _ => -2.86)
    (laterPieces (fun a => (0.405 * a + 1.6) ^ (2.18 : ℝ) - 2.86)
      fun a => (0.249 * a + 0.65) ^ (2.7 : ℝ) - 0.72) := by
  have hlinear (b d : ℝ) : RisesFrom b (· - d) := fun x y _ hxy => sub_le_sub_right hxy d
  have hnear : Seam.Fits (⟨-3.94, -3.94, -3.94⟩ : Seam ℝ) (fun _ => -2.86)
      fun a => (0.405 * a + 1.6) ^ (2.18 : ℝ) - 2.86 := by
    have hpos : (0 : ℝ) ≤ (0.405 * -3.94 + 1.6) ^ (2.18 : ℝ) := by positivity
    exact ⟨le_rfl, le_rfl, by linarith, by linarith⟩
  have hrods : Seam.Fits (⟨-1.4534, -1.44, -1.428⟩ : Seam ℝ)
      (fun a => (0.405 * a + 1.6) ^ (2.18 : ℝ) - 2.86) (· - 0.395) := by
    refine ⟨by norm_num, by norm_num, ?_, ?_⟩ <;>
      · refine (rpow_sub_le_iff 109 50 ?_ ?_ ?_ ?_).mpr ?_ <;> norm_num
  have hcones : Seam.Fits (⟨-0.018401, -0.0184, -0.018398⟩ : Seam ℝ) (· - 0.395)
      fun a => (0.249 * a + 0.65) ^ (2.7 : ℝ) - 0.72 := by
    refine ⟨by norm_num, by norm_num, ?_, ?_⟩ <;>
      · refine (le_rpow_sub_iff 27 10 ?_ ?_ ?_ ?_).mpr ?_ <;> norm_num
  have hbright : Seam.Fits (⟨1.8961, 1.9, 1.9032⟩ : Seam ℝ)
      (fun a => (0.249 * a + 0.65) ^ (2.7 : ℝ) - 0.72) (· - 1.255) := by
    refine ⟨by norm_num, by norm_num, ?_, ?_⟩ <;>
      · refine (rpow_sub_le_iff 27 10 ?_ ?_ ?_ ?_).mpr ?_ <;> norm_num
  refine .seam (fun _ _ _ _ => le_rfl) hnear (by norm_num [drops]) ?_
  refine .seam (risesFrom_rpow (by norm_num) (by norm_num) (by norm_num)) hrods (by norm_num) ?_
  refine .seam (hlinear _ _) hcones (by norm_num) ?_
  refine .seam (risesFrom_rpow (by norm_num) (by norm_num) (by norm_num)) hbright (by simp) ?_
  exact .last (hlinear _ _)

end Real

/-- Of two positive luminances, the threshold at the larger one is not below that at the smaller one,
unless their logarithms lie within the interval of one drop and on both sides of it; likewise the
exact fit. -/
theorem visibleThreshold_rises_outside_drops :
    (∀ x y : Float32, 0 < x → x ≤ y → (∀ s ∈ drops Float32, ¬s.Spans (log10 x) (log10 y)) →
        visibleThreshold x ≤ visibleThreshold y) ∧
      ∀ a b : ℝ, a ≤ b → (∀ s ∈ drops ℝ, ¬s.Spans a b) →
        exactLogThreshold a ≤ exactLogThreshold b := by
  constructor
  · intro x y hx hxy hspan
    have hlog := log10_mono hx hxy
    obtain ⟨hnx, hny⟩ := not_nan_of_le hlog
    rw [visibleThreshold, visibleThreshold, logThreshold_eq, logThreshold_eq]
    refine power_ten_mono (ordered_single.joined_le rising_single (by decide +kernel)
      (isNaN_iff_reading.not.mpr hnx) (isNaN_iff_reading.not.mpr hny)
      (le_refl_of_not_nan hnx) hlog (not_spans_laterPieces hspan ?_))
    exact fun h => Binary.not_lt_of_le h.2.2.1 h.2.2.2
  · intro a b hab hspan
    rw [exactLogThreshold_eq, exactLogThreshold_eq]
    refine ordered_real.joined_le rising_real (fun _ _ => ⟨trivial, trivial, trivial⟩) trivial trivial
      le_rfl hab (not_spans_laterPieces hspan ?_)
    exact fun h => not_lt_of_ge h.2.2.1 h.2.2.2

/-- Across the first drop and past its interval. -/
theorem visibleThreshold_rises_past_drop :
    (0 < (0.0363 : Float32) ∧ (0.0363 : Float32) ≤ 0.1 ∧
        (∀ s ∈ drops Float32, ¬s.Spans (log10 0.0363) (log10 0.1)) ∧
        visibleThreshold 0.0363 ≤ visibleThreshold 0.1) ∧
      ((-1.4401 : ℝ) ≤ -1.4 ∧ (∀ s ∈ drops ℝ, ¬s.Spans (-1.4401) (-1.4)) ∧
        exactLogThreshold (-1.4401) ≤ exactLogThreshold (-1.4)) := by
  have hpos : 0 < (0.0363 : Float32) := by decide +kernel
  have hle : (0.0363 : Float32) ≤ 0.1 := by decide +kernel
  have hspan : ∀ s ∈ drops Float32, ¬s.Spans (log10 0.0363) (log10 0.1) := by decide +kernel
  have hle' : (-1.4401 : ℝ) ≤ -1.4 := by norm_num
  have hspan' : ∀ s ∈ drops ℝ, ¬s.Spans (-1.4401) (-1.4) := by norm_num [drops, Seam.Spans]
  obtain ⟨hsingle, hreal⟩ := visibleThreshold_rises_outside_drops
  exact ⟨⟨hpos, hle, hspan, hsingle _ _ hpos hle hspan⟩, hle', hspan', hreal _ _ hle' hspan'⟩

/-- Just below the second seam the threshold is higher than just above it, and each drop is one. -/
theorem visibleThreshold_drops :
    (0 < (0.0363 : Float32) ∧ (0.0363 : Float32) ≤ 0.03632 ∧
        visibleThreshold 0.03632 < visibleThreshold 0.0363) ∧
      ∀ s ∈ drops ℝ, ∃ a b, s.Spans a b ∧ exactLogThreshold b < exactLogThreshold a := by
  refine ⟨by decide +kernel, fun s hs => ?_⟩
  simp only [drops, List.mem_cons, List.not_mem_nil, or_false] at hs
  obtain rfl | rfl | rfl := hs
  · refine ⟨-1.4401, -1.44, ⟨by norm_num, by norm_num, by norm_num, by norm_num⟩, ?_⟩
    have hend : -1.8349 ≤ exactLogThreshold (-1.4401) := by
      rw [exactLogThreshold, if_neg (by norm_num), if_pos (by norm_num)]
      refine (le_rpow_sub_iff 109 50 ?_ ?_ ?_ ?_).mpr ?_ <;> norm_num
    have hstart : exactLogThreshold (-1.44) = -1.835 := by norm_num [exactLogThreshold]
    linarith
  · refine ⟨-0.0184002, -0.0184, ⟨by norm_num, by norm_num, by norm_num, by norm_num⟩, ?_⟩
    have hend : exactLogThreshold (-0.0184002) = -0.4134002 := by norm_num [exactLogThreshold]
    have hstart : exactLogThreshold (-0.0184) ≤ -0.4134003 := by
      rw [exactLogThreshold, if_neg (by norm_num), if_neg (by norm_num), if_neg (by norm_num),
        if_pos (by norm_num)]
      refine (rpow_sub_le_iff 27 10 ?_ ?_ ?_ ?_).mpr ?_ <;> norm_num
    linarith
  · refine ⟨1.899, 1.9, ⟨by norm_num, by norm_num, by norm_num, by norm_num⟩, ?_⟩
    have hend : 0.6455 ≤ exactLogThreshold 1.899 := by
      rw [exactLogThreshold, if_neg (by norm_num), if_neg (by norm_num), if_neg (by norm_num),
        if_pos (by norm_num)]
      refine (le_rpow_sub_iff 27 10 ?_ ?_ ?_ ?_).mpr ?_ <;> norm_num
    have hstart : exactLogThreshold 1.9 = 0.645 := by norm_num [exactLogThreshold]
    linarith

end Fit

end VisibleDifference
