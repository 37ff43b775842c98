import VisibleDifference.Proofs.Locality
import VisibleDifference.Proofs.Ranges.Colours
import VisibleDifference.Proofs.Ranges.Sensitivity

/-!
# When the factor of a pixel is NaN

A NaN among the contrasts makes the elevation NaN, and clamping leaves a NaN alone. Contrasts up to
`2 ^ 121` in bands of ordinary frequencies give no NaN: a weighted contrast that is not zero may be
multiplied by an infinite masking, and one that is zero comes with a finite masking. So luminances
up to `1e24` and frequencies up to `1e15` are safe, while luminances that overflow everywhere make
every factor NaN.
-/

namespace VisibleDifference

open Binary

namespace Viewing

variable {contrasts : Vector Float32 bandCount} {k : ℕ}

theorem mem_toList {c : Float32} (hc : c ∈ contrasts.toList) : ∃ i, contrasts.get i = c := by
  obtain ⟨i, hi, rfl⟩ := Vector.mem_iff_getElem.mp (Vector.mem_toList_iff.mp hc)
  exact ⟨⟨i, hi⟩, rfl⟩

/-- Six additions, each of which at most doubles the bound. -/
theorem upTo_total (hk : k ≤ 121) (hc : ∀ i, UpTo (2 ^ k) (contrasts.get i)) :
    UpTo (2 ^ (k + 6)) (larger (contrasts.foldl (· + ·) 0) darkest) := by
  have hsum : UpTo (2 ^ (k + 6)) (contrasts.foldl (· + ·) 0) := by
    have hfold : 0 + 1 * contrasts.toList.length ≤ 6 →
        UpTo (2 ^ (k + (0 + 1 * contrasts.toList.length))) (contrasts.toList.foldl (· + ·) 0) := by
      refine foldl_counted (Q := fun n acc => n ≤ 6 → UpTo (2 ^ (k + n)) acc) 1 ?_ fun _ => ?_
      · intro n acc c hmem hacc hn
        obtain ⟨i, rfl⟩ := mem_toList hmem
        refine upTo_add (hacc (by omega)) (hc i) (Grid.two_pow (by omega)) ?_
        have hle : (2 : ℝ) ^ k ≤ 2 ^ (k + n) := pow_le_pow_right₀ one_le_two (by omega)
        rw [← Nat.add_assoc, pow_succ]
        linarith
      · exact ⟨0, reading_zero, by positivity⟩
    rw [Vector.length_toList, Vector.foldl_toList] at hfold
    exact hfold le_rfl
  have hdarkest : UpTo 1 darkest := upTo_one_of_isUpTo (by decide +kernel)
  exact upTo_larger hsum (hdarkest.mono (one_le_pow₀ one_le_two))

/-- What a band adds, before it is divided by the total. -/
theorem nonneg_term {contrast weight sensitivity : Float32} (hc : UpTo (2 ^ k) contrast)
    (hleast : AtLeast (2 ^ (-60 : ℤ)) weight) (hfinite : UpTo (2 ^ 128) weight)
    (hs : UpTo (2 ^ 60) sensitivity) :
    AtLeast 0 (contrast * weight * masking (contrast * sensitivity)) := by
  have hmask : AtLeast 1 (masking (contrast * sensitivity)) := one_le_masking (nonneg_mul hc hs)
  obtain ⟨p, hp, -⟩ := hc
  obtain ⟨q, hq, -⟩ := hfinite
  have hproduct : Rounds (contrast * weight) false (p * q) := rounds_mul hp hq
  have hgrid : Grid (2 ^ (-149 : ℤ)) := Grid.two_zpow (by decide) (by decide)
  by_cases hsmall : 2 ^ (-149 : ℤ) ≤ p * q
  · exact atLeast_mul (hproduct.atLeast hgrid hsmall) hmask (by positivity) one_pos Grid.zero
      (by positivity)
  · -- the product may vanish, so the masking has to be finite
    have hp' : p ≤ 2 ^ (-60 : ℤ) := by
      by_contra! hlarge
      have hpq : (2 : ℝ) ^ (-60 : ℤ) * 2 ^ (-60 : ℤ) ≤ p * q :=
        mul_le_mul hlarge.le (hleast.le hq) (by positivity) (size_nonneg hp)
      exact hsmall (le_trans (by norm_num) hpq)
    have hseen : UpTo 1 (contrast * sensitivity) := upTo_mul ⟨p, hp, hp'⟩ hs Grid.one (by norm_num)
    exact nonneg_mul (hproduct.upTo hgrid (not_le.mp hsmall).le) (upTo_masking hseen)

theorem nonneg_elevation {bands : ViewingBands} {adaptation : Float32} (hk : k ≤ 121)
    (hc : ∀ i, UpTo (2 ^ k) (contrasts.get i)) (hb : bands.InRange)
    (ha : AtLeast (2 ^ (-17 : ℤ)) adaptation) :
    AtLeast 0 (elevation bands contrasts adaptation) := by
  have htotal := upTo_total hk hc
  have htotal' : AtLeast (2 ^ (-17 : ℤ)) (larger (contrasts.foldl (· + ·) 0) darkest) :=
    atLeast_larger _ darkest_pos (by positivity)
  have hresponse := ContrastResponse.inRange_ofLuminance ha
  refine foldl_counted (Q := fun _ sum => AtLeast 0 sum) (n := 0) 1 (fun _ sum i _ hsum => ?_)
    (.inr ⟨0, reading_zero, le_rfl⟩)
  exact atLeast_add hsum (nonneg_div (nonneg_term (hc i) (hb.weight i) (hb.finite i)
    (hresponse.upTo_sensitivity (hb.frequency _))) htotal' (by positivity) htotal) Grid.zero

/-- A fold that keeps a NaN and meets one. -/
theorem foldl_nan {γ : Type} {f : Float32 → γ → Float32}
    (hkeep : ∀ acc c, reading acc = .nan → reading (f acc c) = .nan) {l : List γ} {c : γ}
    (hc : c ∈ l) (hnan : ∀ acc, reading (f acc c) = .nan) (acc : Float32) :
    reading (l.foldl f acc) = .nan := by
  have hkept (l : List γ) (acc : Float32) (ha : reading acc = .nan) :
      reading (l.foldl f acc) = .nan := by
    induction l generalizing acc with
    | nil => exact ha
    | cons d l ih => exact ih _ (hkeep acc d ha)
  induction l generalizing acc with
  | nil => cases hc
  | cons d l ih =>
    rw [List.foldl_cons]
    obtain rfl | hc := List.mem_cons.mp hc
    · exact hkept l _ (hnan acc)
    · exact ih hc _

/-- A NaN among the contrasts is not masked. -/
theorem elevation_nan (bands : ViewingBands) (adaptation : Float32) {i : Fin bandCount}
    (hi : reading (contrasts.get i) = .nan) :
    reading (elevation bands contrasts adaptation) = .nan := by
  unfold elevation
  refine foldl_nan (c := i) ?_ (List.mem_finRange i) ?_ 0
  · intro sum j hsum
    exact nan_add hsum _
  · intro sum
    exact add_nan (nan_div (nan_mul (nan_mul hi _) _) _) _

theorem one_le_clampFactor {f : Float32} (hf : ¬f.isNaN = true) : AtLeast 1 (clampFactor f) := by
  have hten : AtLeast (2 ^ (3 : ℤ)) 10 := atLeast_of_isAtLeast (by decide +kernel)
  unfold clampFactor
  split_ifs with hlow hhigh
  · exact atLeast_one
  · exact hten.mono (by norm_num)
  · exact atLeast_of_not_lt hf atLeast_one one_pos hlow

theorem isNaN_clampFactor (f : Float32) : (clampFactor f).isNaN = f.isNaN := by
  by_cases hf : f.isNaN = true
  · have hnan : reading f = .nan := isNaN_iff_reading.mp hf
    rw [clampFactor, if_neg (not_lt_of_nan (.inl hnan)), if_neg (not_lt_of_nan (.inr hnan))]
  · rw [Bool.eq_false_iff.mpr hf, Bool.eq_false_iff]
    exact (one_le_clampFactor hf).not_nan

end Viewing

/-- Conditions far beyond what can be seen, for pictures of a given width. -/
structure Conditions.Ordinary (c : Conditions) (width : Nat) : Prop where
  luminance : c.luminance ≤ 1e24
  frequency_pos : 0 < (ViewingBands.of width c.fieldOfView).frequency.get 0
  frequency_le : (ViewingBands.of width c.fieldOfView).frequency.get 0 ≤ 1e15

namespace Viewing

variable {w h : ℕ} {c : Conditions} {left right : Plane UInt32 w h}

/-- No factor is NaN under ordinary conditions, whatever the pictures. -/
theorem not_nan_factor (hv : c.validate = .ok ()) (ho : c.Ordinary w) (x : Fin w) (y : Fin h) :
    ¬((under c left right).factor x y).isNaN = true := by
  obtain ⟨hfinite, hpos, -⟩ := Conditions.inRange_of_validate hv .gamma
  obtain ⟨-, hlit, -⟩ := Conditions.inRange_of_validate hv .luminance
  obtain ⟨b, hb⟩ := upTo_of_isFinite hfinite hpos
  have hpeak : UpTo (2 ^ 80) c.luminance :=
    upTo_of_le (nonneg_of_pos hlit) ho.luminance
      (upTo_of_isUpTo (k := 80) (by decide +kernel))
  have hlevel (words : Plane UInt32 w h) (l : Fin levelCount) : UpTo (2 ^ (82 + 21))
      ((Pyramid.of Kernel.lowPass (Appearance.of c.gamma c.luminance words).luminance).value
        l x y) := by
    refine upTo_value (by decide) (fun x' y' => ?_) l x y
    rw [Appearance.get_luminance_of]
    exact Colour.upTo_luminance hb hpos hpeak (by decide) _
  have hcontrast (i : Fin bandCount) :
      UpTo (2 ^ 121) (((under c left right).contrasts x y).get i) := by
    rw [get_contrasts]
    exact upTo_bandContrast (by decide) (hlevel left) (hlevel right) i
  have hbands : (under c left right).bands.InRange :=
    ViewingBands.inRange_ofExtent (upTo_of_le (nonneg_of_pos ho.frequency_pos)
      ho.frequency_le (upTo_of_isUpTo (k := 50) (by decide +kernel)))
  rw [factor, isNaN_clampFactor]
  exact (nonneg_elevation (k := 121) (by decide) hcontrast hbands (adaptation_pos _ x y)).not_nan

/-- Where both pictures are infinitely bright everywhere, every factor is NaN. -/
theorem isNaN_factor_of_infinite
    (hl : ∀ x y, reading ((Appearance.of c.gamma c.luminance left).luminance.get x y) =
      .infinite false)
    (hr : ∀ x y, reading ((Appearance.of c.gamma c.luminance right).luminance.get x y) =
      .infinite false) (x : Fin w) (y : Fin h) :
    ((under c left right).factor x y).isNaN = true := by
  let i : Fin bandCount := ⟨0, by decide⟩
  have hcontrast : reading (((under c left right).contrasts x y).get i) = .nan := by
    rw [get_contrasts]
    exact bandContrast_nan (fun l => value_infinite hl l x y) (fun l => value_infinite hr l x y) _
  rw [factor, isNaN_clampFactor, isNaN_iff_reading]
  exact elevation_nan _ _ hcontrast

end Viewing

end VisibleDifference
