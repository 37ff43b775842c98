import Mathlib.Algebra.Ring.Periodic
import VisibleDifference.Proofs.Borders
import VisibleDifference.Proofs.Checked.Chunks

/-!
# Mirrored planes

Past its borders a plane is continued by its mirror images, which do not repeat the samples at the
border. In a row of two samples or more the mirrors at its two ends leave no choice: what obeys both
laws repeats itself after twice the length less two, and shows the row folded back. In a row of one
sample the two laws are one, which says nothing about other positions than the sample itself; that
the sample is repeated is asked for besides.

Each level of a pyramid above the source is the convolution of the level below, continued in this
way, with the table of weights. The type of the samples is arbitrary, so no law of arithmetic is
used: it is the same chain of multiply-adds over the same values in the same order.
-/

namespace VisibleDifference

universe u

/-- Both ends of a row of `len` samples are mirrors. -/
structure MirroredAtEnds {β : Type u} (len : Nat) (f : Int → β) : Prop where
  first : ∀ i, f (-i) = f i
  last : ∀ i, f (2 * ((len : Int) - 1) - i) = f i

theorem foldBack_neg (len : Nat) (i : Int) : foldBack len (-i) = foldBack len i := by
  by_cases hl : len ≤ 1
  · simp only [foldBack, if_pos hl]
  · have hp : (0 : Int) < ((2 * len - 2 : Nat) : Int) := by omega
    have h0 := Int.emod_nonneg i (Int.ne_of_gt hp)
    have hlt := Int.emod_lt_of_pos i hp
    simp only [foldBack, if_neg hl, Int.neg_emod, Int.dvd_iff_emod_eq_zero, Int.natAbs_natCast]
    by_cases he : i % ((2 * len - 2 : Nat) : Int) = 0
    · rw [if_pos he, he]
    · rw [if_neg he]
      split <;> split <;> omega

theorem mirroredAtEnds_foldBack (len : Nat) : MirroredAtEnds len (foldBack len) where
  first := foldBack_neg len
  last i := by
    by_cases hl : len ≤ 1
    · simp only [foldBack, if_pos hl]
    · have hp : 2 * ((len : Int) - 1) = ((2 * len - 2 : Nat) : Int) := by omega
      have hr : (2 * ((len : Int) - 1) - i) % ((2 * len - 2 : Nat) : Int) =
          -i % ((2 * len - 2 : Nat) : Int) := by
        rw [hp, sub_eq_add_neg, Int.add_emod_left]
      rw [← foldBack_neg len i]
      simp only [foldBack, if_neg hl, hr]

namespace MirroredAtEnds

variable {β : Type u} {len : Nat} {f : Int → β}

theorem periodic (hf : MirroredAtEnds len f) : Function.Periodic f (2 * ((len : Int) - 1)) := by
  intro i
  have hl := hf.last (-i)
  rw [sub_neg_eq_add, add_comm, hf.first] at hl
  exact hl

/-- Two mirrors show the row folded back. -/
theorem eq_foldBack (hf : MirroredAtEnds len f) (hone : len = 1 → ∀ i, f i = f 0) (hl : 0 < len)
    (i : Int) : f i = f (foldBack len i) := by
  by_cases h1 : len = 1
  · rw [hone h1 i, hone h1 (foldBack len i)]
  · have hp : ((2 * len - 2 : Nat) : Int) = 2 * ((len : Int) - 1) := by omega
    have hr := Int.emod_nonneg i (b := ((2 * len - 2 : Nat) : Int)) (by omega)
    have hlt := Int.emod_lt_of_pos i (b := ((2 * len - 2 : Nat) : Int)) (by omega)
    have hm : f (i % ((2 * len - 2 : Nat) : Int)) = f i := by
      rw [Int.emod_def, hp, mul_comm]
      exact hf.periodic.sub_int_mul_eq _
    rw [foldBack, if_neg (by omega : ¬len ≤ 1), ← hm]
    dsimp only
    split
    · rw [Int.toNat_of_nonneg hr]
    · -- the second half of the period is the mirror image of the first
      rw [← hf.last]
      congr 1
      omega

end MirroredAtEnds

namespace Plane

variable {α : Type} {w h : Nat} {p : Plane α w h} {e : Int → Int → α}

/-- `e` shows `p` between four mirrors. -/
structure Mirrors (p : Plane α w h) (e : Int → Int → α) : Prop where
  inside : ∀ (x : Fin w) (y : Fin h), e x.val y.val = p.get x y
  across : ∀ j, MirroredAtEnds w fun i => e i j
  along : ∀ i, MirroredAtEnds h (e i)

/-- `e` shows `p` between four mirrors and repeats it across a side of one sample. -/
structure Continues (p : Plane α w h) (e : Int → Int → α) : Prop extends Mirrors p e where
  column : w = 1 → ∀ i j, e i j = e 0 j
  row : h = 1 → ∀ i j, e i j = e i 0

theorem Mirrors.continues (he : p.Mirrors e) (hw : 1 < w) (hh : 1 < h) : p.Continues e where
  toMirrors := he
  column h1 := absurd h1 (Nat.ne_of_gt hw)
  row h1 := absurd h1 (Nat.ne_of_gt hh)

def mirrored (p : Plane α w h) (hw : 0 < w) (hh : 0 < h) (i j : Int) : α :=
  p.get ⟨foldBack w i, foldBack_lt hw i⟩ ⟨foldBack h j, foldBack_lt hh j⟩

theorem continues_mirrored (p : Plane α w h) (hw : 0 < w) (hh : 0 < h) :
    p.Continues (p.mirrored hw hh) where
  inside x y := by
    simp only [mirrored, foldBack_of_lt x.isLt, foldBack_of_lt y.isLt]
  across j := by
    have hf := mirroredAtEnds_foldBack w
    constructor <;> intro i <;> simp only [mirrored, hf.first, hf.last]
  along i := by
    have hf := mirroredAtEnds_foldBack h
    constructor <;> intro j <;> simp only [mirrored, hf.first, hf.last]
  column h1 i j := by
    subst h1
    rfl
  row h1 i j := by
    subst h1
    rfl

theorem Continues.eq_mirrored (he : p.Continues e) (hw : 0 < w) (hh : 0 < h) :
    e = p.mirrored hw hh := by
  funext i j
  have hi : e i j = e (foldBack w i) j :=
    (he.across j).eq_foldBack (fun h1 i => he.column h1 i j) hw i
  have hj : e (foldBack w i) j = e (foldBack w i) (foldBack h j) :=
    (he.along _).eq_foldBack (fun h1 j => he.row h1 _ j) hh j
  rw [hi, hj]
  exact he.inside ⟨foldBack w i, foldBack_lt hw i⟩ ⟨foldBack h j, foldBack_lt hh j⟩

theorem existsUnique_continues (p : Plane α w h) (hw : 0 < w) (hh : 0 < h) :
    ∃! e, p.Continues e :=
  ⟨p.mirrored hw hh, p.continues_mirrored hw hh, fun _ he => he.eq_mirrored hw hh⟩

end Plane

/-- How far the table of weights reaches, in the order of its rows and columns. -/
def offsets : List Int := [-2, -1, 0, 1, 2]

theorem offsets_eq_map : offsets = (List.finRange 5).map Plane.tapOffset := by decide

theorem Kernel.getD_stored {α : Type} (k : Kernel α) (r c : Fin 5) (a : α) :
    k.stored.getD ((Plane.tapOffset r + 2) * 5 + (Plane.tapOffset c + 2)).toNat a =
      k.weight r c := by
  have hi : ((Plane.tapOffset r + 2) * 5 + (Plane.tapOffset c + 2)).toNat = r.val * 5 + c.val := by
    simp only [Plane.tapOffset]
    omega
  rw [hi, Array.getD_eq_getD_getElem?, stored, Plane.getElem?_stored, Plane.get_ofFn]
  rfl

variable {α : Type} [MulAdd α] {w h : Nat}

/-- One chain of multiply-adds from zero over the values of `e` around a position. -/
def convolution (table : Array α) (e : Int → Int → α) (x y : Int) : α :=
  offsets.foldl
    (fun acc dy =>
      offsets.foldl
        (fun acc dx =>
          MulAdd.mulAdd (table.getD ((dy + 2) * 5 + (dx + 2)).toNat MulAdd.zero)
            (e (x + dx) (y + dy)) acc)
        acc)
    MulAdd.zero

theorem Plane.tapSum_eq_convolution (k : Kernel α) (p : Plane α w h) (hw : 0 < w)
    (hh : 0 < h) (x : Fin w) (y : Fin h) :
    p.tapSum k x y = convolution k.stored (p.mirrored hw hh) x.val y.val := by
  simp only [convolution, offsets_eq_map, List.foldl_map, Kernel.getD_stored]
  rfl

namespace Pyramid

theorem value_eq_convolution (k : Kernel α) (p : Plane α w h) {l l' : Fin levelCount}
    (hl : l'.val = l.val + 1) {e : Int → Int → α} (he : ((of k p).level l).Continues e)
    (x : Fin w) (y : Fin h) : (of k p).value l' x y = convolution k.stored e x.val y.val := by
  have hw := Nat.zero_lt_of_lt x.isLt
  have hh := Nat.zero_lt_of_lt y.isLt
  rw [value, level_of_succ k p hl, Plane.get_blur, Plane.tapSum_eq_convolution k _ hw hh,
    he.eq_mirrored hw hh]

/-- Each level above the source is the convolution of the level below with the table of weights,
whatever continues that level past its borders; there is one such continuation, and where both sides
are longer than one, the mirror laws alone give it. Built on stored arrays and read from there, the
values are the same. -/
theorem levels_are_convolutions_of_mirrored_levels (hw : 0 < w) (hh : 0 < h) (k : Kernel α)
    (p : Plane α w h) :
    (∀ l : Fin levelCount, l.val = 0 → (of k p).level l = p) ∧
    (∀ l l' : Fin levelCount, l'.val = l.val + 1 →
      (∃! e, ((of k p).level l).Continues e) ∧
      (1 < w → 1 < h → ∀ e, ((of k p).level l).Mirrors e → ((of k p).level l).Continues e) ∧
      ∀ e, ((of k p).level l).Continues e → ∀ (x : Fin w) (y : Fin h),
        (of k p).value l' x y = convolution k.stored e x.val y.val) ∧
    (4 * (w * h) < addressLimit → ∃ s, StoredPyramid.build k.stored p.stored w h = .ok s ∧
      ∀ (l : Fin levelCount) (x : Fin w) (y : Fin h),
        s.checkedValue x.val y.val l.val = .ok ((of k p).value l x y)) := by
  refine ⟨level_of_zero k p, fun l l' hl => ⟨Plane.existsUnique_continues _ hw hh,
    fun hw hh e he => he.continues hw hh, fun e he => value_eq_convolution k p hl he⟩,
    fun hm => ⟨(of k p).stored, StoredPyramid.build_eq k p hm, ?_⟩⟩
  exact StoredPyramid.checkedValue_eq _ (by omega)

/-- Dark but for the middle. -/
def litMiddle : Plane Float32 3 3 := (Plane.fill 0).set ⟨1, by decide⟩ ⟨1, by decide⟩ 1

/-- The corner of three by three sees the middle four times. -/
theorem corner_sees_the_middle_mirrored :
    0 < 3 ∧ ∃ e, litMiddle.Continues e ∧ e (-1) (-1) = 1 ∧
      convolution Kernel.lowPass.stored e 0 0 = 0.25 := by
  obtain ⟨hsource, hlevels, -⟩ :=
    levels_are_convolutions_of_mirrored_levels (w := 3) (h := 3) (by decide) (by decide)
      Kernel.lowPass litMiddle
  obtain ⟨⟨e, he, -⟩, -, hvalue⟩ := hlevels 0 1 rfl
  rw [hsource 0 rfl] at he hvalue
  have hm : e (-1) (-1) = 1 := by
    rw [(he.across _).first, (he.along _).first]
    exact he.inside 1 1
  have hc : (of Kernel.lowPass litMiddle).value 1 0 0 = 0.25 := by decide +kernel
  exact ⟨by decide, e, he, hm, (hvalue e he 0 0).symm.trans hc⟩

end Pyramid

end VisibleDifference
