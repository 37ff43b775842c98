import VisibleDifference.Proofs.Checked.Visibility
import VisibleDifference.Proofs.Double.Extents
import VisibleDifference.Proofs.Ranges.Sensitivity

/-!
# Viewing bands of every picture and angle

The eye adapts to the first level whose blur is wider than the extent of the picture in degrees, or
to the last level if none is, also where the extent is no number. So it adapts to a level of the
pyramid for every angle, and to no earlier one for a wider angle. Each level shows half of the
frequency of the one before, and weights are capped whatever the sensitivity they are computed from.
-/

namespace VisibleDifference

open Binary

variable {x y : Float32} {s : Bool} {q : ℝ}

/-- `y` is half of `x`, rounded where `x` is so small that half of it has too few digits. -/
structure Halves (x y : Float32) : Prop where
  nan : reading x = .nan → reading y = .nan
  infinite : ∀ s, reading x = .infinite s → reading y = .infinite s
  nearest : ∀ s q, reading x = .number s q → Nearest y s (q / 2)
  exact : ∀ s q, reading x = .number s q → (2 : ℝ) ^ (-125 : ℤ) ≤ q → reading y = .number s (q / 2)

theorem grid_half (hx : reading x = .number s q) (hq : (2 : ℝ) ^ (-125 : ℤ) ≤ q) :
    Grid (q / 2) := by
  obtain ⟨m, e, hm, hl, hu, rfl⟩ := grid_of_reading hx
  have hm' : (m : ℝ) < 2 ^ (24 : ℤ) := by exact_mod_cast hm
  have hlarge : (2 : ℝ) ^ (-125 : ℤ) < 2 ^ (24 + e) := by
    rw [zpow_add₀ two_ne_zero]
    exact hq.trans_lt (by gcongr)
  have he := (zpow_lt_zpow_iff_right₀ (one_lt_two (α := ℝ))).mp hlarge
  refine ⟨m, e - 1, hm, by omega, by omega, ?_⟩
  rw [zpow_sub_one₀ two_ne_zero, ← div_eq_mul_inv, mul_div_assoc]

theorem halves_mul (x : Float32) : Halves x (0.5 * x) := by
  have hhalf : reading 0.5 = .number false (1 / 2) := by
    have hv : Value.ofSingle 0.5 = .finite false (2 ^ 23) (-24) := by decide +kernel
    rw [reading, hv]
    norm_num [Value.reading]
  have hnearest {s : Bool} {q : ℝ} (hx : reading x = .number s q) :
      Nearest (0.5 * x) s (q / 2) := by
    have h := nearest_mul hhalf hx
    rwa [Bool.false_bne, one_div_mul_eq_div] at h
  exact {
    nan := fun hx => mul_nan hx _
    infinite := fun s hx => by
      have h := (reading_infinite_mul hx hhalf one_half_pos).2
      rwa [Bool.bne_false] at h
    nearest := fun s q hx => hnearest hx
    exact := fun s q hx hq => (hnearest hx).rounds.exact (grid_half hx hq) }

namespace ViewingBands

variable {p : Float32}

section Adaptation

/-- The levels whose blur, twice as wide from level to level, is wider than `p`. -/
def levelsPast (p : Float32) : Set (Fin levelCount) := {l | p < Float32.ofNat (2 ^ l.val)}

/-- The first level past `p`, or the last level of all. -/
structure FirstPast (p : Float32) (l : Fin levelCount) : Prop where
  least : (levelsPast p).Nonempty → IsLeast (levelsPast p) l
  last : levelsPast p = ∅ → l.val = 7

theorem doublingsPast_spec (p : Float32) (n : ℕ) (size : Float32) :
    (∀ i < doublingsPast p n size, ¬p < (2 * ·)^[i] size) ∧
      (doublingsPast p n size < n → p < (2 * ·)^[doublingsPast p n size] size) := by
  induction n generalizing size with
  | zero => exact ⟨fun i hi => absurd hi (Nat.not_lt_zero i), fun h => absurd h (lt_irrefl 0)⟩
  | succ n ih =>
    rw [doublingsPast]
    split_ifs with hpast
    · exact ⟨fun i hi => absurd hi (Nat.not_lt_zero i), fun _ => hpast⟩
    · obtain ⟨hbefore, hat⟩ := ih (2 * size)
      constructor
      · intro i hi
        cases i with
        | zero => exact hpast
        | succ i => exact hbefore i (Nat.lt_of_succ_lt_succ hi)
      · intro h
        exact hat (Nat.lt_of_succ_lt_succ h)

theorem doubled_one : ∀ l : Fin levelCount, (2 * ·)^[l.val] (1 : Float32) = .ofNat (2 ^ l.val) := by
  decide +kernel

theorem firstPast_adaptationLevelOf (p : Float32) : FirstPast p (adaptationLevelOf p) := by
  obtain ⟨hbefore, hat⟩ := doublingsPast_spec p (levelCount - 1) 1
  obtain ⟨d, hd⟩ : ∃ d, d = adaptationLevelOf p := ⟨_, rfl⟩
  have hval : doublingsPast p (levelCount - 1) 1 = d.val := by rw [hd]; rfl
  rw [hval] at hbefore hat
  rw [← hd]
  have hle (l : Fin levelCount) (hl : l ∈ levelsPast p) : d ≤ l := by
    by_contra! hlt
    refine hbefore l.val hlt ?_
    rw [doubled_one]
    exact hl
  have hmem (h : d.val < 7) : d ∈ levelsPast p := by
    have hpast := hat h
    rwa [doubled_one] at hpast
  have hlast : d.val < 8 := d.isLt
  constructor
  · rintro ⟨l, hl⟩
    refine ⟨?_, hle⟩
    obtain hd | hd : d.val < 7 ∨ d.val = 7 := by omega
    · exact hmem hd
    · have hl' : d.val ≤ l.val := hle l hl
      have hl'' : l.val < 8 := l.isLt
      rwa [Fin.ext (by omega : d.val = l.val)]
  · intro hnone
    by_contra hne
    exact Set.notMem_empty d (hnone ▸ hmem (by omega))

theorem FirstPast.mono {q : Float32} {l l' : Fin levelCount} (h : FirstPast p l)
    (h' : FirstPast q l') (hpq : p ≤ q) : l ≤ l' := by
  obtain hnone | hsome := (levelsPast q).eq_empty_or_nonempty
  · rw [Fin.le_def, h'.last hnone]
    exact Fin.le_last l
  · have hmem : l' ∈ levelsPast p := Binary.lt_of_le_of_lt hpq (h'.least hsome).1
    exact (h.least ⟨l', hmem⟩).2 hmem

theorem FirstPast.of_nan {l : Fin levelCount} (h : FirstPast p l) (hp : p.isNaN = true) :
    l.val = 7 := by
  refine h.last (Set.eq_empty_of_forall_notMem fun l => ?_)
  exact not_lt_of_nan (.inl (isNaN_iff_reading.mp hp))

end Adaptation

section Weights

/-- The weight of a band if the eye had another sensitivity. -/
def weightBy (sensitivity : Float32 → Float32 → Float32) (frequency : Float32) : Float32 :=
  smaller (sensitivity peakFrequency referenceLuminance /
    sensitivity frequency referenceLuminance) largestFinite

/-- No more than the largest finite number, so neither NaN nor infinite. -/
structure Capped (x : Float32) : Prop where
  le : x ≤ largestFinite
  not_nan : x.isNaN = false
  not_infinite : reading x ≠ .infinite false

theorem reading_largestFinite :
    reading largestFinite = .number false ((2 ^ 24 - 1) * 2 ^ (104 : ℤ)) := by
  have hv : Value.ofSingle largestFinite = .finite false (2 ^ 24 - 1) 104 := by decide +kernel
  rw [reading, hv]
  norm_num [Value.reading]

theorem capped_of_le (hx : x ≤ largestFinite) : Capped x where
  le := hx
  not_nan := Bool.eq_false_iff.mpr fun hn => (not_nan_of_le hx).1 (isNaN_iff_reading.mp hn)
  not_infinite := by
    intro hinf
    have h := infinite_of_le hinf hx
    rw [reading_largestFinite] at h
    cases h

theorem capped_weightBy (sensitivity : Float32 → Float32 → Float32) (frequency : Float32) :
    Capped (weightBy sensitivity frequency) := by
  refine capped_of_le (smaller_le _ ?_)
  rw [isNaN_iff_reading, reading_largestFinite]
  exact fun h => nomatch h

end Weights

theorem halves_ofExtent (width : ℕ) (extent : Float32) {l l' : Fin levelCount}
    (hl : l'.val = l.val + 1) :
    Halves ((ofExtent width extent).frequency.get l)
      ((ofExtent width extent).frequency.get l') := by
  rw [get_frequency_ofExtent width extent l, get_frequency_ofExtent width extent l', hl]
  exact halves_mul _

end ViewingBands

open ViewingBands in
/-- For every width and angle the bands are computed without a trap. The level is the first one past
the extent, and no earlier one for a larger extent or a wider angle; no level is read at a pixel that
the pyramids do not have. Each frequency is half of the one before, and no weight is more than the
largest finite number, whatever the sensitivity to the frequencies. -/
theorem viewing_bands_fit_every_angle (width : ℕ) (fieldOfView : Float32) :
    let extent := flatExtent fieldOfView
    let bands := ViewingBands.of width fieldOfView
    StoredBands.build width extent = .ok bands.stored ∧
      bands.adaptationLevel = adaptationLevelOf extent ∧
      (∀ p, FirstPast p (adaptationLevelOf p) ∧
        (p.isNaN = true → (adaptationLevelOf p).val = 7) ∧ (adaptationLevelOf p).val ≤ 7) ∧
      (∀ p q, p ≤ q → adaptationLevelOf p ≤ adaptationLevelOf q) ∧
      (∀ width' wider, 0 < fieldOfView → fieldOfView ≤ wider → wider < 180 →
        bands.adaptationLevel ≤ (ViewingBands.of width' wider).adaptationLevel) ∧
      bandCount + 1 = 7 ∧
      (∀ {height : ℕ} (left right : Appearance width height), width * height < addressLimit →
        ∀ x y, (Viewing.of left right fieldOfView).stored.checkedDiffers x.val y.val =
          .ok ((Viewing.of left right fieldOfView).differs x y)) ∧
      (∀ l l' : Fin levelCount, l'.val = l.val + 1 →
        Halves (bands.frequency.get l) (bands.frequency.get l')) ∧
      (∀ b, bands.weight.get b =
        weightBy contrastSensitivity (bands.frequency.get (ownLevel b))) ∧
      ∀ sensitivity frequency, Capped (weightBy sensitivity frequency) := by
  refine ⟨StoredBands.build_eq width _, rfl, fun p => ?_, fun p q hpq => ?_,
    fun width' wider hpos hle hlt => ?_, rfl, fun left right hm x y => ?_,
    fun l l' hl => halves_ofExtent width _ hl, fun b => ?_, capped_weightBy⟩
  · have h := firstPast_adaptationLevelOf p
    exact ⟨h, h.of_nan, Fin.le_last _⟩
  · exact (firstPast_adaptationLevelOf p).mono (firstPast_adaptationLevelOf q) hpq
  · exact (firstPast_adaptationLevelOf _).mono (firstPast_adaptationLevelOf _)
      (flatExtent_mono hpos hle hlt)
  · exact StoredViewing.checkedDiffers_eq (Viewing.of left right fieldOfView) hm x y
  · exact Vector.getElem_ofFn b.isLt

open ViewingBands in
/-- Half a right angle and a wide one, an extent that is no number, and a black pixel. -/
theorem half_a_right_angle_adapts_to_level_six :
    let black : Appearance 1 1 := .of 2.2 100 (.fill 0xff000000)
    (0 : Float32) < 45 ∧ (45 : Float32) ≤ 170 ∧ (170 : Float32) < 180 ∧
      (ViewingBands.of 1 45).adaptationLevel = 6 ∧ (ViewingBands.of 64 170).adaptationLevel = 7 ∧
      (ViewingBands.of 1 45).adaptationLevel ≤ (ViewingBands.of 64 170).adaptationLevel ∧
      (levelsPast 3).Nonempty ∧ IsLeast (levelsPast 3) (adaptationLevelOf 3) ∧
      (3 : Float32) ≤ 5 ∧ adaptationLevelOf 3 ≤ adaptationLevelOf 5 ∧
      (0 / 0 : Float32).isNaN = true ∧ (adaptationLevelOf (0 / 0)).val = 7 ∧
      Halves ((ViewingBands.of 1 45).frequency.get 0) ((ViewingBands.of 1 45).frequency.get 1) ∧
      1 * 1 < addressLimit ∧ (Viewing.of black black 45).stored.checkedDiffers 0 0 =
        .ok ((Viewing.of black black 45).differs 0 0) := by
  have hpos : (0 : Float32) < 45 := by decide +kernel
  have hle : (45 : Float32) ≤ 170 := by decide +kernel
  have hlt : (170 : Float32) < 180 := by decide +kernel
  have hpq : (3 : Float32) ≤ 5 := by decide +kernel
  have hnan : (0 / 0 : Float32).isNaN = true := by decide +kernel
  have hm : 1 * 1 < addressLimit := by decide
  have hpast : (3 : Float32) < .ofNat (2 ^ 2) := by decide +kernel
  have hsome : (levelsPast 3).Nonempty := ⟨2, hpast⟩
  obtain ⟨-, -, hfirst, hmono, hwider, -, hdiffers, hhalves, -, -⟩ :=
    viewing_bands_fit_every_angle 1 45
  exact ⟨hpos, hle, hlt, by decide +kernel, by decide +kernel, hwider 64 170 hpos hle hlt, hsome,
    (hfirst 3).1.least hsome, hpq, hmono 3 5 hpq, hnan, (hfirst (0 / 0)).2.1 hnan,
    hhalves 0 1 rfl, hm, hdiffers _ _ hm 0 0⟩

end VisibleDifference
