import VisibleDifference.Proofs.Checked.Planes
import VisibleDifference.Pyramid.Levels

/-!
# Pyramids as stored

Each level is blurred into a new array, row by row. Folding a position back at a border is done with
signed distances, the rows of the level below are cut out as slices, and so are those of the table
of weights. In a plane that can be addressed nothing of this traps for any size, and the levels are
those of the pyramid. A value is read after its level and its place have been checked.
-/

namespace VisibleDifference

open Checked

/-- The sample shown at position `i` of a row of `len` samples, computed with distances. -/
def checkedFold (len : Nat) (i : Int) : Checked Nat := do
  require (0 < len)
  if len = 1 then return 0
  let period ← distance ((← distance (2 * (← distance len))) - 2)
  require (period ≠ 0)
  let r := (i % period).toNat
  if r < len then return r
  difference period.toNat r

theorem checkedFold_eq {len : Nat} (hl : 0 < len) (hm : 2 * len < distanceLimit) (i : Int) :
    checkedFold len i = .ok (foldBack len i) := by
  by_cases h1 : len = 1
  · subst h1
    rfl
  · have hp : ((2 * len - 2 : Nat) : Int) = 2 * (len : Int) - 2 := by omega
    have hr := Int.emod_nonneg i (b := 2 * (len : Int) - 2) (by omega)
    have hlt := Int.emod_lt_of_pos i (b := 2 * (len : Int) - 2) (by omega)
    rw [checkedFold, require_of hl, ok_bind, if_neg h1, distance_of_natAbs_lt (by omega), ok_bind,
      distance_of_natAbs_lt (by omega), ok_bind, distance_of_natAbs_lt (by omega), ok_bind,
      require_of (by omega), ok_bind, foldBack, if_neg (show ¬len ≤ 1 by omega)]
    simp only [hp]
    split
    · rfl
    · rw [difference_of_le (by omega)]
      congr 2
      omega

def checkedNeighbour (len x i : Nat) : Checked Nat := do
  let position ← distance ((← distance x) + ((i : Int) - 2))
  checkedFold len position

theorem two_mul_lt_distanceLimit {n : Nat} (hn : 4 * n < addressLimit) :
    2 * n < distanceLimit := by
  have ha : addressLimit = 2 * distanceLimit := rfl
  omega

theorem checkedNeighbour_eq {len : Nat} (hm : 4 * len < addressLimit) (x : Fin len) (i : Fin 5) :
    checkedNeighbour len x.val i.val = .ok (neighbour x (Plane.tapOffset i)).val := by
  have hx := x.isLt
  have hi := i.isLt
  have hd : 4 < distanceLimit := by decide
  have h2 := two_mul_lt_distanceLimit hm
  rw [checkedNeighbour, distance_of_natAbs_lt (by omega), ok_bind,
    distance_of_natAbs_lt (by omega), ok_bind, checkedFold_eq (by omega) h2]
  rfl

def Kernel.stored {α : Type} (k : Kernel α) : Array α :=
  (Plane.ofFn fun c r => k.weight r c : Plane α 5 5).stored

theorem Kernel.read_stored {α : Type} (k : Kernel α) (r c : Fin 5) :
    read (k.stored.extract (r.val * 5) k.stored.size) c.val = .ok (k.weight r c) := by
  have hs : k.stored.size = 5 * 5 := Plane.size_stored _
  have hr := r.isLt
  have hc := c.isLt
  rw [read_extract (by omega) (Nat.le_refl _), stored, Plane.read_stored, Plane.get_ofFn]

namespace Plane

variable {α : Type} [MulAdd α] {w h : Nat}

def checkedTapSum (k p : Array α) (w h x y : Nat) : Checked α :=
  forEach 5 MulAdd.zero fun acc r => do
    let y' ← checkedNeighbour h y r
    let start ← size (y' * w)
    let stop ← size ((← size (y' + 1)) * w)
    let row ← slice p start stop
    let weights ← slice k (← size (r * 5)) k.size
    forEach 5 acc fun acc c => do
      let x' ← checkedNeighbour w x c
      let weight ← read weights c
      let value ← read row x'
      return MulAdd.mulAdd weight value acc

theorem checkedTapSum_eq (k : Kernel α) (p : Plane α w h) (hm : 4 * (w * h) < addressLimit)
    (x : Fin w) (y : Fin h) :
    checkedTapSum k.stored p.stored w h x.val y.val = .ok (p.tapSum k x y) := by
  have hx := x.isLt
  have hy := y.isLt
  have hw : 4 * w < addressLimit :=
    Nat.lt_of_le_of_lt (Nat.mul_le_mul_left 4 (Nat.le_mul_of_pos_right w (by omega))) hm
  have hh : 4 * h < addressLimit :=
    Nat.lt_of_le_of_lt (Nat.mul_le_mul_left 4 (Nat.le_mul_of_pos_left h (by omega))) hm
  have hk : k.stored.size = 5 * 5 := Plane.size_stored _
  apply forEach_foldl
  intro r acc
  have hy' := (neighbour y (tapOffset r)).isLt
  have hrow := row_le (w := w) (neighbour y (tapOffset r))
  have hstart : (neighbour y (tapOffset r)).val * w ≤ ((neighbour y (tapOffset r)).val + 1) * w :=
    Nat.mul_le_mul_right w (Nat.le_succ _)
  have hr := r.isLt
  have ha : 25 < addressLimit := by decide
  rw [checkedNeighbour_eq hh, ok_bind, size_of_lt (by omega), ok_bind, size_of_lt (by omega),
    ok_bind, size_of_lt (by omega), ok_bind, slice_stored, ok_bind, size_of_lt (by omega), ok_bind,
    slice_of_le (by omega) (Nat.le_refl _), ok_bind]
  apply forEach_foldl
  intro c acc
  rw [checkedNeighbour_eq hw, ok_bind, k.read_stored, ok_bind, read_extract_stored, ok_bind]
  rfl

def checkedBlurRow (k p : Array α) (w h : Nat) (out : Array α) (y : Nat) : Checked (Array α) :=
  forEach w out fun out x => do
    let value ← checkedTapSum k p w h x y
    let i ← size (y * w + x)
    write out i value

theorem checkedBlurRow_eq (k : Kernel α) (p q : Plane α w h) (hm : 4 * (w * h) < addressLimit)
    (y : Fin h) :
    checkedBlurRow k.stored p.stored w h q.stored y.val =
      .ok (q.setRow y fun x => p.tapSum k x y).stored := by
  apply forEach_stored
  intro x q
  have hi := index_lt x y
  rw [checkedTapSum_eq k p hm, ok_bind, size_of_lt (by omega), ok_bind, write_stored]

def checkedBlur (k p : Array α) (w h : Nat) (out : Array α) : Checked (Array α) := do
  require (p.size = out.size)
  if w = 0 ∨ h = 0 then return out
  require (w ≠ 0)
  forEach (out.size / w) out (checkedBlurRow k p w h)

theorem checkedBlur_eq (k : Kernel α) (p out : Plane α w h) (hm : 4 * (w * h) < addressLimit) :
    checkedBlur k.stored p.stored w h out.stored = .ok (p.blur k).stored := by
  rw [checkedBlur, size_stored, size_stored, require_of rfl, ok_bind]
  by_cases he : w = 0 ∨ h = 0
  · rw [if_pos he, pure_eq_ok, stored_eq_of_empty out (p.blur k) he]
  · have hrows : w * h / w = h := Nat.mul_div_cancel_left h (by omega)
    have ho : rowOrder w h = List.finRange h := if_neg (by omega)
    have hloop := forEach_stored stored (fun y q => checkedBlurRow_eq k p q hm y) out
    rw [if_neg he, require_of (by omega), ok_bind, hrows, hloop, blur, blurRows, fillRows_rowOrder,
      ← fillRows_rowOrder (p.tapSum k) out, ho]
    rfl

end Plane

structure StoredPyramid (α : Type) where
  width : Nat
  height : Nat
  levels : Array (Array α)

namespace Pyramid

variable {α : Type} {w h : Nat}

def stored (p : Pyramid α w h) : StoredPyramid α :=
  ⟨w, h, (p.levels.map Plane.stored).toArray⟩

variable [MulAdd α]

theorem getElem_blurs (k : Kernel α) {n : Nat} (p : Plane α w h) {i : Nat}
    (hi : i < (blurs k n p).length) : (blurs k n p)[i] = (Plane.blur k)^[i] p := by
  induction i generalizing n p with
  | zero =>
    cases n with
    | zero => exact absurd hi (Nat.not_lt_zero _)
    | succ n => rfl
  | succ i ih =>
    cases n with
    | zero => exact absurd hi (Nat.not_lt_zero _)
    | succ n => exact ih (p.blur k) (Nat.lt_of_succ_lt_succ hi)

theorem blurs_succ (k : Kernel α) (n : Nat) (p : Plane α w h) :
    blurs k (n + 1) p = blurs k n p ++ [(Plane.blur k)^[n] p] := by
  induction n generalizing p with
  | zero => rfl
  | succ n ih =>
    rw [blurs, ih (p.blur k)]
    rfl

end Pyramid

namespace StoredPyramid

variable {α : Type} {w h : Nat}

/-- Level `i` of a pyramid over `image` whose lower levels are given. -/
def checkedLevel [MulAdd α] (k image : Array α) (w h : Nat) (levels : Array (Array α)) (i : Nat) :
    Checked (Array α) := do
  let blank := Array.replicate image.size MulAdd.zero
  if i = 0 then
    require (blank.size = image.size)
    return image
  let below ← read levels (← difference i 1)
  Plane.checkedBlur k below w h blank

def addLevel [MulAdd α] (k image : Array α) (w h : Nat) (levels : Array (Array α)) (i : Nat) :
    Checked (Array (Array α)) := do
  let level ← checkedLevel k image w h levels i
  write levels i level

def build [MulAdd α] (k image : Array α) (w h : Nat) : Checked (StoredPyramid α) := do
  let count ← size (w * h)
  require (image.size = count)
  let levels ← forEach levelCount (Array.replicate levelCount #[]) (addLevel k image w h)
  return ⟨w, h, levels⟩

open Pyramid in
theorem checkedLevel_eq [MulAdd α] (k : Kernel α) (p : Plane α w h)
    (hm : 4 * (w * h) < addressLimit) (i : Nat) :
    checkedLevel k.stored p.stored w h (filled levelCount #[] Plane.stored (blurs k i p)) i =
      .ok ((Plane.blur k)^[i] p).stored := by
  cases i with
  | zero =>
    rw [checkedLevel, if_pos rfl, require_of Array.size_replicate]
    rfl
  | succ i =>
    have hi : i < (blurs k (i + 1) p).length := by
      rw [length_blurs]
      exact Nat.lt_succ_self i
    rw [checkedLevel, if_neg (Nat.succ_ne_zero i), difference_of_le (by omega), ok_bind,
      Nat.add_sub_cancel, read_filled _ _ hi, ok_bind, p.size_stored, ← Plane.stored_fill,
      Plane.checkedBlur_eq k _ _ hm, getElem_blurs, Function.iterate_succ_apply']

open Pyramid in
theorem build_eq [MulAdd α] (k : Kernel α) (p : Plane α w h) (hm : 4 * (w * h) < addressLimit) :
    build k.stored p.stored w h = .ok (Pyramid.of k p).stored := by
  have hstep (i : Nat) (hi : i < levelCount) : addLevel k.stored p.stored w h
      (filled levelCount #[] Plane.stored (blurs k i p)) i =
        .ok (filled levelCount #[] Plane.stored (blurs k (i + 1) p)) := by
    have hlen : (blurs k i p).length = i := length_blurs k i p
    have hw := write_filled #[] Plane.stored ((Plane.blur k)^[i] p) (hlen.symm ▸ hi)
    rw [hlen] at hw
    rw [addLevel, checkedLevel_eq k p hm, ok_bind, blurs_succ, hw]
  have hloop := forEach_eq _ levelCount hstep
  rw [blurs, filled_nil, filled_of_length_eq _ _ (length_blurs k levelCount p)] at hloop
  rw [build, size_of_lt (by omega), ok_bind, p.size_stored, require_of rfl, ok_bind, hloop]
  rfl

def checkedValue (p : StoredPyramid α) (x y l : Nat) : Checked α := do
  require (l < levelCount)
  require (x < p.width ∧ y < p.height)
  let level ← read p.levels l
  let i ← size ((← size (y * p.width)) + x)
  read level i

theorem size_levels (p : Pyramid α w h) : p.stored.levels.size = levelCount := by
  simp [Pyramid.stored, p.length_levels]

theorem read_levels (p : Pyramid α w h) (l : Fin levelCount) :
    read p.stored.levels l.val = .ok (p.level l).stored := by
  have hl : l.val < p.stored.levels.size := (size_levels p).symm ▸ l.isLt
  rw [read_of_lt hl]
  simp [Pyramid.stored, Pyramid.level]

theorem checkedValue_eq (p : Pyramid α w h) (hm : w * h < addressLimit) (l : Fin levelCount)
    (x : Fin w) (y : Fin h) :
    p.stored.checkedValue x.val y.val l.val = .ok (p.value l x y) := by
  have hi := Plane.index_lt x y
  rw [checkedValue, require_of l.isLt, ok_bind, require_of ⟨x.isLt, y.isLt⟩, ok_bind,
    read_levels, ok_bind]
  simp only [Pyramid.stored]
  rw [size_of_lt (by omega), ok_bind, size_of_lt (by omega), ok_bind, Plane.read_stored]
  rfl

end StoredPyramid

end VisibleDifference
