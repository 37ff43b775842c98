import VisibleDifference.Proofs.Checked.Visibility
import VisibleDifference.Proofs.Marking

/-!
# Marking stored maps

The flags of a row are written to the map, if there is one, and those that are set are counted; the
counts of the rows are then added up. A picture without pixels is not gone through at all. Nothing
of this traps if the picture can be addressed, and what is found is `Viewing.find`.
-/

namespace VisibleDifference

open Checked

/-- The flags so far, if they are wanted, and how many of them are set. -/
abbrev Tally (w h : Nat) := Option (Plane Bool w h) × Nat

namespace Tally

variable {w h : Nat} (v : Viewing w h)

def stored (s : Tally w h) : Option (Array Bool) × Nat := (s.1.map Plane.stored, s.2)

def markPixel (y : Fin h) (s : Tally w h) (x : Fin w) : Tally w h :=
  (s.1.map fun p => p.set x y (v.differs x y), s.2 + (v.differs x y).toNat)

def markRow (s : Tally w h) (y : Fin h) : Tally w h :=
  (s.1.map fun p => p.setRow y fun x => v.differs x y, s.2 + (v.rowFlags y).count true)

theorem foldl_markPixel (y : Fin h) (s : Tally w h) :
    (List.finRange w).foldl (markPixel v y) (s.1, 0) =
      (s.1.map fun p => p.setRow y fun x => v.differs x y, (v.rowFlags y).count true) := by
  have hgen (xs : List (Fin w)) (s : Tally w h) : xs.foldl (markPixel v y) s =
      (s.1.map fun p => p.setColumns y (fun x => v.differs x y) xs,
        s.2 + xs.countP fun x => v.differs x y) := by
    induction xs generalizing s with
    | nil =>
      cases s with
      | mk flags n => cases flags <;> rfl
    | cons x xs ih =>
      rw [List.foldl_cons, ih, markPixel, List.countP_cons, Option.map_map, Nat.add_assoc]
      congr 2
      cases v.differs x y with
      | false => simp
      | true => simp [Nat.add_comm]
  rw [hgen, v.count_rowFlags, Nat.zero_add]
  rfl

theorem foldl_markRow (order : List (Fin h)) (s : Tally w h) :
    order.foldl (markRow v) s =
      (s.1.map fun p => p.fillRows order v.differs,
        order.foldl (fun n y => n + (v.rowFlags y).count true) s.2) := by
  induction order generalizing s with
  | nil =>
    cases s with
    | mk flags n => cases flags <;> rfl
  | cons y order ih =>
    rw [List.foldl_cons, ih, markRow, Option.map_map]
    rfl

end Tally

namespace StoredViewing

variable {w h : Nat}

/-- Writes the flag at column `x` of row `y`, and counts it. -/
def markPixel (v : StoredViewing) (y : Nat) (s : Option (Array Bool) × Nat) (x : Nat) :
    Checked (Option (Array Bool) × Nat) := do
  let flag ← v.checkedDiffers x y
  let flags ← s.1.mapM fun flags => do
    let i ← size ((← size (y * v.leftScales.width)) + x)
    write flags i flag
  let count ← size (s.2 + flag.toNat)
  return (flags, count)

theorem markPixel_stored (v : Viewing w h) (hm : w * h < addressLimit) (y : Fin h) (x : Fin w)
    (s : Tally w h) (hs : s.2 ≤ x.val) :
    v.stored.markPixel y.val s.stored x.val = .ok (s.markPixel v y x).stored := by
  have hi := Plane.index_lt x y
  have hb := (v.differs x y).toNat_le
  have hw : v.stored.leftScales.width = w := rfl
  have hc : size (s.2 + (v.differs x y).toNat) = .ok (s.2 + (v.differs x y).toNat) :=
    size_of_lt (by omega)
  obtain ⟨flags, count⟩ := s
  rw [markPixel, checkedDiffers_eq v hm, ok_bind]
  cases flags with
  | none =>
    simp only [Tally.stored, Option.map_none, Option.mapM_none, pure_eq_ok, ok_bind, hc]
    rfl
  | some p =>
    simp only [Tally.stored, Option.map_some, Option.mapM_some, hw, hc,
      size_of_lt (show y.val * w < addressLimit by omega),
      size_of_lt (show y.val * w + x.val < addressLimit by omega), ok_bind, p.write_stored x y]
    rfl

def markRow (v : StoredViewing) (s : Option (Array Bool) × Nat) (y : Nat) :
    Checked (Option (Array Bool) × Nat) := do
  let (flags, inRow) ← forEach v.leftScales.width (s.1, 0) (v.markPixel y)
  let count ← size (s.2 + inRow)
  return (flags, count)

/-- No more flags are set than pixels have been gone through. -/
theorem markRow_stored (v : Viewing w h) (hm : w * h < addressLimit) (y : Fin h)
    (s : Tally w h) (hs : s.2 ≤ y.val * w) :
    v.stored.markRow s.stored y.val = .ok (s.markRow v y).stored ∧
      (s.markRow v y).2 ≤ (y.val + 1) * w := by
  have hrow := forEach_simulates Tally.stored (fun n s => s.2 ≤ n)
    (fun x s hs => ⟨markPixel_stored v hm y x s hs, ?_⟩) (s.1, 0) (Nat.le_refl 0)
  · rw [Tally.foldl_markPixel] at hrow
    obtain ⟨hloop, hcount⟩ := hrow
    have hle : (s.markRow v y).2 ≤ (y.val + 1) * w := by
      rw [Nat.succ_mul]
      exact Nat.add_le_add hs hcount
    refine ⟨?_, hle⟩
    have hlt : s.2 + (v.rowFlags y).count true < addressLimit :=
      Nat.lt_of_le_of_lt (hle.trans (Plane.row_le y)) hm
    have hw : v.stored.leftScales.width = w := rfl
    have h0 : (s.stored.1, 0) = Tally.stored (s.1, 0) := rfl
    rw [markRow, hw, h0, hloop, ok_bind]
    simp only [Tally.stored, size_of_lt hlt, ok_bind]
    rfl
  · exact Nat.add_le_add hs (v.differs x y).toNat_le

/-- The number of pixels that look different; they are marked on `flags`, if given. -/
def checkedCount (v : StoredViewing) (flags : Option (Array Bool)) :
    Checked (Option (Array Bool) × Nat) := do
  let width := v.leftScales.width
  let height := v.leftScales.height
  if width = 0 ∨ height = 0 then return (flags, 0)
  match flags with
  | some flags =>
    let count ← size (width * height)
    require (flags.size = count)
    require (width ≠ 0)
    forEach (flags.size / width) (some flags, 0) v.markRow
  | none => forEach height (none, 0) v.markRow

theorem checkedCount_eq (v : Viewing w h) (hm : w * h < addressLimit)
    (flags : Option (Plane Bool w h)) :
    v.stored.checkedCount (flags.map Plane.stored) =
      .ok (flags.map fun _ => (Plane.ofFn v.differs).stored, v.visible.card) := by
  have hw : v.stored.leftScales.width = w := rfl
  have hh : v.stored.leftScales.height = h := rfl
  simp only [checkedCount, hw, hh]
  by_cases he : w = 0 ∨ h = 0
  · have hv : v.visible.card = 0 := by
      have := Finset.card_le_univ v.visible
      simp only [Fintype.card_prod, Fintype.card_fin, Nat.mul_eq_zero.mpr he] at this
      omega
    rw [if_pos he, hv]
    cases flags with
    | none => rfl
    | some p =>
      rw [Option.map_some, Option.map_some, p.stored_eq_of_empty (.ofFn v.differs) he]
      rfl
  · have hloop := (forEach_simulates Tally.stored (fun n s => s.2 ≤ n * w)
      (fun y s hs => markRow_stored v hm y s hs) (flags, 0) (Nat.zero_le _)).1
    have ho : Plane.rowOrder w h = List.finRange h := if_neg (by omega)
    rw [Tally.foldl_markRow, ← ho] at hloop
    have hcount : (Plane.rowOrder w h).foldl (fun n y => n + (v.rowFlags y).count true) 0 =
        v.visible.card := v.countRows_rowOrder
    simp only [Tally.stored, Plane.fillRows_rowOrder, hcount, Option.map_map] at hloop
    rw [if_neg he]
    cases flags with
    | none => exact hloop
    | some p =>
      have hn : w ≠ 0 := by omega
      simp only [Option.map_some, size_of_lt hm, ok_bind, p.size_stored, require_of, hn,
        Nat.mul_div_cancel_left h (Nat.pos_of_ne_zero hn), ne_eq, not_false_eq_true]
      exact hloop

def checkedMap (width height : Nat) (flags : Array Bool) : Checked DifferenceMap :=
  match Plane.ofArray? width height flags with
  | some plane => .ok ⟨width, height, plane⟩
  | none => .error .failedCheck

theorem checkedMap_stored (p : Plane Bool w h) : checkedMap w h p.stored = .ok ⟨w, h, p⟩ := by
  rw [checkedMap, p.ofArray?_stored]

def checkedFind (v : StoredViewing) (wantsMap : Bool) : Checked Finding := do
  let width := v.leftScales.width
  let height := v.leftScales.height
  if wantsMap then
    let entries ← size (width * height)
    let (flags, count) ← v.checkedCount (some (Array.replicate entries false))
    let map ← flags.mapM (checkedMap width height)
    return ⟨count, map⟩
  else
    let (_, count) ← v.checkedCount none
    return ⟨count, none⟩

theorem checkedFind_eq (v : Viewing w h) (hm : w * h < addressLimit) (wantsMap : Bool) :
    v.stored.checkedFind wantsMap = .ok (v.find wantsMap) := by
  have hw : v.stored.leftScales.width = w := rfl
  have hh : v.stored.leftScales.height = h := rfl
  rw [checkedFind, hw, hh, v.find_eq]
  cases wantsMap with
  | false =>
    have hc := checkedCount_eq v hm none
    rw [Option.map_none] at hc
    rw [if_neg Bool.false_ne_true, hc]
    rfl
  | true =>
    have hc := checkedCount_eq v hm (some (.fill false))
    rw [Option.map_some, Plane.stored_fill] at hc
    rw [if_pos rfl, size_of_lt hm, ok_bind, hc, ok_bind]
    simp only [Option.map_some, Option.mapM_some, checkedMap_stored]
    rfl

end StoredViewing

end VisibleDifference
