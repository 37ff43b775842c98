import VisibleDifference.Proofs.Checked.Planes
import VisibleDifference.Vision.Bands

/-!
# Viewing bands as stored

The level that the eye adapts to is the last one a scan over all levels has come to, so it is a
level of the pyramid for every picture and angle. The frequencies are computed each from the one
before, and the weights each from its frequency. None of this traps.
-/

namespace VisibleDifference

open Checked

structure StoredBands where
  adaptationLevel : Nat
  frequency : Array Float32
  weight : Array Float32

def ViewingBands.stored (b : ViewingBands) : StoredBands :=
  ⟨b.adaptationLevel.val, b.frequency.toArray, b.weight.toArray⟩

namespace StoredBands

/-- Goes through the levels until `size`, doubled from level to level, exceeds `extent`, and gives
the last level it has come to. -/
def scan (extent : Float32) : List Nat → Nat → Float32 → Nat
  | [], last, _ => last
  | level :: levels, _, size => if size > extent then level else scan extent levels level (2 * size)

theorem scan_range' (extent : Float32) (n first last : Nat) (size : Float32) :
    scan extent (List.range' first (n + 1)) last size =
      first + ViewingBands.doublingsPast extent n size := by
  induction n generalizing first last size with
  | zero =>
    rw [List.range'_succ, scan, ViewingBands.doublingsPast, Nat.add_zero]
    split
    · rfl
    · rfl
  | succ n ih =>
    rw [List.range'_succ, scan, ViewingBands.doublingsPast]
    split
    · rfl
    · rw [ih]
      omega

def halve (frequency : Array Float32) (i : Nat) : Checked (Array Float32) := do
  let last ← read frequency i
  write frequency (i + 1) (0.5 * last)

def weigh (frequency weight : Array Float32) (i : Nat) : Checked (Array Float32) := do
  let f ← read frequency i
  write weight i (ViewingBands.weightOf f)

def build (width : Nat) (extent : Float32) : Checked StoredBands := do
  let top ← write (Array.replicate levelCount 0) 0 (0.5 * (Float32.ofNat width / extent))
  let frequency ← forEach (levelCount - 1) top halve
  let weight ← forEach bandCount (Array.replicate bandCount 0) (weigh frequency)
  return ⟨scan extent (List.range levelCount) 0 1, frequency, weight⟩

def frequencies (f : Float32) (n : Nat) : Array Float32 :=
  filled levelCount 0 (ViewingBands.halved f) (List.range n)

theorem halve_frequencies (f : Float32) {i : Nat} (hi : i + 1 < levelCount) :
    halve (frequencies f (i + 1)) i = .ok (frequencies f (i + 2)) := by
  have hl : (List.range (i + 1)).length = i + 1 := List.length_range
  have hr : read (frequencies f (i + 1)) i = .ok (ViewingBands.halved f i) := by
    rw [frequencies, read_filled _ _ (by omega), List.getElem_range]
  have hw := write_filled 0 (ViewingBands.halved f) (i + 1) (hl.symm ▸ hi)
  rw [hl] at hw
  rw [halve, hr, ok_bind]
  simp only [frequencies, List.range_succ (n := i + 1)]
  exact hw

def weights (f : Float32) (n : Nat) : Array Float32 :=
  filled bandCount 0 (fun i => ViewingBands.weightOf (ViewingBands.halved f i)) (List.range n)

theorem weigh_weights (f : Float32) {i : Nat} (hi : i < bandCount) :
    weigh (frequencies f levelCount) (weights f i) i = .ok (weights f (i + 1)) := by
  have hl : (List.range i).length = i := List.length_range
  have hb : bandCount < levelCount := by decide
  have hr : read (frequencies f levelCount) i = .ok (ViewingBands.halved f i) := by
    rw [frequencies, read_filled _ _ (by rw [List.length_range]; omega), List.getElem_range]
  have hw := write_filled 0 (fun i => ViewingBands.weightOf (ViewingBands.halved f i)) i
    (hl.symm ▸ hi)
  rw [hl] at hw
  rw [weigh, hr, ok_bind]
  simp only [weights, List.range_succ (n := i)]
  exact hw

theorem build_eq (width : Nat) (extent : Float32) :
    build width extent = .ok (ViewingBands.ofExtent width extent).stored := by
  let f := 0.5 * (Float32.ofNat width / extent)
  have htop : write (Array.replicate levelCount 0) 0 f = .ok (frequencies f 1) := rfl
  have hfrequency : forEach (levelCount - 1) (frequencies f 1) halve =
      .ok (frequencies f levelCount) :=
    forEach_eq (fun i => frequencies f (i + 1)) (levelCount - 1) fun i hi =>
      halve_frequencies f (Nat.succ_lt_succ hi)
  have hweight := forEach_eq (weights f) bandCount fun i hi => weigh_weights f hi
  have hscan : scan extent (List.range levelCount) 0 1 =
      (ViewingBands.adaptationLevelOf extent).val := by
    rw [List.range_eq_range', scan_range', Nat.zero_add]
    rfl
  rw [build, htop, ok_bind, hfrequency, ok_bind]
  have h0 : weights f 0 = Array.replicate bandCount 0 := rfl
  rw [← h0, hweight, hscan]
  rfl

end StoredBands

end VisibleDifference
