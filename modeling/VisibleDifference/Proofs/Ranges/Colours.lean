import VisibleDifference.Proofs.Single.Powers
import VisibleDifference.Vision.Appearance

/-!
# Ranges of colours

Light is at most one, so tristimulus values are at most three and luminances at most three times
that of white. Coordinates of colours are finite, however bright white is.
-/

namespace VisibleDifference

open Binary

variable {gamma peak : Float32} {b : ℝ}

theorem upTo_channel (v : Fin 256) : UpTo 1 (Float32.ofNat v.val / 255) := by
  have hv : reading (Float32.ofNat v.val) = .number false v.val := reading_ofNat (by omega)
  have hwhite : reading 255 = .number false (255 : ℕ) := reading_ofNat (n := 255) (by decide)
  have hle : (v.val : ℝ) ≤ (255 : ℕ) := by exact_mod_cast Nat.le_of_lt_succ v.isLt
  exact upTo_div ⟨_, hv, hle⟩ (.inr ⟨_, hwhite, le_rfl⟩) (by norm_num) Grid.one (by norm_num)

theorem upTo_displayCurve (hb : UpTo b gamma) (hg : 0 < gamma) (v : Fin 256) :
    UpTo 1 ((displayCurve gamma).get v) := by
  obtain ⟨l, hl⟩ := exists_nat_ge b
  have hp := upTo_power (k := 0) ((upTo_channel v).mono (by norm_num)) (hb.mono hl) hg (by omega)
  rw [zero_mul, pow_zero] at hp
  have hv : (displayCurve gamma).get v = power (Float32.ofNat v.val / 255) gamma :=
    Vector.getElem_ofFn v.isLt
  rwa [hv]

/-- A mixture of three lights, each weighted by at most one. -/
theorem upTo_mixture {r g b s t u : Float32} (hr : UpTo 1 r) (hg : UpTo 1 g) (hb : UpTo 1 b)
    (hs : UpTo 1 s) (ht : UpTo 1 t) (hu : UpTo 1 u) : UpTo 3 (r * s + g * t + b * u) := by
  have hsum : UpTo 2 (r * s + g * t) :=
    upTo_add (upTo_mul hr hs Grid.one (by norm_num)) (upTo_mul hg ht Grid.one (by norm_num))
      (by exact_mod_cast Grid.nat (n := 2) (by decide)) (by norm_num)
  exact upTo_add hsum (upTo_mul hb hu Grid.one (by norm_num))
    (by exact_mod_cast Grid.nat (n := 3) (by decide)) (by norm_num)

/-- A tristimulus value of a display. -/
structure Tristimulus.InRange (t : Tristimulus) : Prop where
  x : UpTo 3 t.x
  y : UpTo 3 t.y
  z : UpTo 3 t.z

theorem Tristimulus.inRange_ofLight {r g b : Float32} (hr : UpTo 1 r) (hg : UpTo 1 g)
    (hb : UpTo 1 b) : (ofLight r g b).InRange := by
  have hmix {s t u : Float32} (hs : (Value.ofSingle s).isUpTo 0 = true)
      (ht : (Value.ofSingle t).isUpTo 0 = true) (hu : (Value.ofSingle u).isUpTo 0 = true) :
      UpTo 3 (r * s + g * t + b * u) :=
    upTo_mixture hr hg hb (upTo_one_of_isUpTo hs) (upTo_one_of_isUpTo ht) (upTo_one_of_isUpTo hu)
  constructor <;> exact hmix (by decide +kernel) (by decide +kernel) (by decide +kernel)

namespace Colour

theorem bounded_response {ratio : Float32} (h : UpTo 6 ratio) :
    Bounded (2 ^ 43) (response ratio) := by
  unfold response
  split_ifs
  · obtain ⟨q, hq, -⟩ := h
    exact bounded_cubeRoot hq
  · have hslope : UpTo (2 ^ (10 : ℤ)) (24389 / 27 : Float32) := upTo_of_isUpTo (by decide +kernel)
    have hoffset : UpTo (2 ^ (4 : ℤ)) (16 : Float32) := upTo_of_isUpTo (by decide +kernel)
    have hscale : AtLeast (2 ^ (6 : ℤ)) (116 : Float32) := atLeast_of_isAtLeast (by decide +kernel)
    have hline : UpTo (2 ^ 13) (mulAdd (24389 / 27) ratio 16) :=
      upTo_mulAdd hslope h hoffset (Grid.two_pow (by decide)) (by norm_num)
    exact (upTo_div hline hscale (by positivity) (Grid.two_pow (by decide)) (by norm_num)).bounded

/-- A ratio to white. -/
theorem upTo_ratio {t white : Float32} (h : UpTo 3 t)
    (hw : (Value.ofSingle white).isAtLeast (-1) = true) : UpTo 6 (t / white) :=
  upTo_div h (atLeast_of_isAtLeast hw) (by positivity)
    (by exact_mod_cast Grid.nat (n := 6) (by decide)) (by norm_num)

/-- Coordinates are finite, whatever the luminance of white. -/
theorem bounded_coordinates {t : Tristimulus} (h : t.InRange) (peak : Float32) :
    Bounded (2 ^ 53) (ofTristimulus peak t).a ∧ Bounded (2 ^ 53) (ofTristimulus peak t).b := by
  have hx : UpTo 6 (t.x / Tristimulus.white.x) := upTo_ratio h.x (by decide +kernel)
  have hy : UpTo 6 (t.y / Tristimulus.white.y) := upTo_ratio h.y (by decide +kernel)
  have hz : UpTo 6 (t.z / Tristimulus.white.z) := upTo_ratio h.z (by decide +kernel)
  have hcoordinate {s f g : Float32} (hs : (Value.ofSingle s).isUpTo 9 = true)
      (hf : Bounded (2 ^ 43) f) (hg : Bounded (2 ^ 43) g) : Bounded (2 ^ 53) (s * (f - g)) :=
    bounded_mul (upTo_of_isUpTo hs).bounded
      (bounded_sub hf hg (c := 2 ^ 44) (Grid.two_pow (by decide)) (by norm_num))
      (Grid.two_pow (by decide)) (by norm_num)
  exact ⟨hcoordinate (by decide +kernel) (bounded_response hx) (bounded_response hy),
    hcoordinate (by decide +kernel) (bounded_response hy) (bounded_response hz)⟩

variable (hb : UpTo b gamma) (hg : 0 < gamma)

include hb hg

theorem inRange_ofRgb (c : Rgb) :
    (Tristimulus.ofLight ((displayCurve gamma).get ⟨c.red.toNat, c.red.toNat_lt⟩)
      ((displayCurve gamma).get ⟨c.green.toNat, c.green.toNat_lt⟩)
      ((displayCurve gamma).get ⟨c.blue.toNat, c.blue.toNat_lt⟩)).InRange :=
  Tristimulus.inRange_ofLight (upTo_displayCurve hb hg _) (upTo_displayCurve hb hg _)
    (upTo_displayCurve hb hg _)

theorem bounded_ofRgb (peak : Float32) (c : Rgb) :
    Bounded (2 ^ 53) (ofRgb (displayCurve gamma) peak c).a ∧
      Bounded (2 ^ 53) (ofRgb (displayCurve gamma) peak c).b :=
  bounded_coordinates (inRange_ofRgb hb hg c) peak

theorem upTo_luminance {k : ℕ} (hp : UpTo (2 ^ k) peak) (hk : k ≤ 125) (c : Rgb) :
    UpTo (2 ^ (k + 2)) (ofRgb (displayCurve gamma) peak c).luminance :=
  upTo_mul (inRange_ofRgb hb hg c).y hp (Grid.two_pow (by omega))
    (by rw [pow_add]; linarith [hp.nonneg])

end Colour

namespace Appearance

variable {w h : Nat} (gamma peak : Float32) (words : Plane UInt32 w h) (x : Fin w) (y : Fin h)

theorem get_luminance_of : (of gamma peak words).luminance.get x y =
    (Colour.ofRgb (displayCurve gamma) peak (straightColour (words.get x y))).luminance := by
  simp [of]

theorem get_a_of : (of gamma peak words).a.get x y =
    (Colour.ofRgb (displayCurve gamma) peak (straightColour (words.get x y))).a := by
  simp [of]

theorem get_b_of : (of gamma peak words).b.get x y =
    (Colour.ofRgb (displayCurve gamma) peak (straightColour (words.get x y))).b := by
  simp [of]

end Appearance

end VisibleDifference
