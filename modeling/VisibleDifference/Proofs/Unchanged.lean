import VisibleDifference.Proofs.Maps
import VisibleDifference.Proofs.Ranges.Elevation

/-!
# Unchanged pixels

A pixel with one colour and one luminance in both pictures looks different exactly if its factor is
NaN: both distances are zero, or NaN where the luminance is infinite, and only a comparison with NaN
fails. So measuring equal pictures finds nothing short of a NaN. None occurs for luminances up to
`1e24` and frequencies up to `1e15`; where luminances overflow, all pixels are found to differ.
-/

namespace VisibleDifference

open Binary (AtLeast Bounded Grid Unsigned UpTo reading)

namespace Viewing

variable {w h : Nat} (v : Viewing w h) (x : Fin w) (y : Fin h)

theorem unsigned_factor : Unsigned (v.factor x y) := by
  by_cases hf : (elevation v.bands (v.contrasts x y) (v.adaptation x y)).isNaN = true
  · rw [factor, Unsigned, ← Binary.isNaN_iff_reading, isNaN_clampFactor]
    exact .inl hf
  · exact .inr ((one_le_clampFactor hf).mono zero_le_one)

theorem unsigned_visibleThreshold (adaptation : Float32) :
    Unsigned (visibleThreshold adaptation) := by
  have hten : UpTo (2 ^ (4 : ℤ)) 10 := Binary.upTo_of_isUpTo (by decide +kernel)
  exact Binary.unsigned_power hten.atLeast _

theorem upTo_colourScale {adaptation : Float32} (ha : AtLeast 0 adaptation) :
    UpTo 1 (colourScale adaptation) := by
  have hdusk : reading dusk = .number false (10 : ℕ) := Binary.reading_ofNat (n := 10) (by decide)
  unfold colourScale
  split_ifs with hdark
  · have hup : UpTo (10 : ℕ) adaptation :=
      Binary.upTo_of_le ha (Binary.le_of_lt hdark) ⟨_, hdusk, le_rfl⟩
    have hratio : UpTo 1 (adaptation / dusk) :=
      Binary.upTo_div hup (.inr ⟨_, hdusk, le_rfl⟩) (by norm_num) Grid.one (by norm_num)
    exact Binary.upTo_mul hratio hratio Grid.one (by norm_num)
  · exact Binary.upTo_one_of_isUpTo (by decide +kernel)

variable {v x y}

theorem luminanceDistance_of_unchanged
    (hl : v.leftScales.value 0 x y = v.rightScales.value 0 x y) :
    reading (v.luminanceDistance x y) = .nan ∨
      reading (v.luminanceDistance x y) = .number false 0 := by
  rw [luminanceDistance, hl, Binary.reading_abs]
  cases hr : reading (v.rightScales.value 0 x y) with
  | nan =>
    rw [Binary.sub_eq_add_neg, Binary.nan_add hr]
    exact .inl rfl
  | infinite s =>
    rw [Binary.reading_infinite_sub hr hr]
    exact .inl rfl
  | number s q =>
    rw [Binary.reading_sub_self hr]
    exact .inr rfl

theorem colourDistance_of_unchanged {a b : ℝ} (ha : v.left.a.get x y = v.right.a.get x y)
    (hb : v.left.b.get x y = v.right.b.get x y) (hfa : Bounded a (v.left.a.get x y))
    (hfb : Bounded b (v.left.b.get x y)) : reading (v.colourDistance x y) = .number false 0 := by
  obtain ⟨s, p, hp, -⟩ := hfa
  obtain ⟨t, q, hq, -⟩ := hfb
  obtain ⟨scale, hscale, -⟩ := upTo_colourScale ((v.adaptation_pos x y).mono (by positivity))
  have hda := Binary.reading_sub_self hp
  have hdb := Binary.reading_sub_self hq
  simp only [colourDistance, ← ha, ← hb]
  exact Binary.reading_zero_mul
    (Binary.reading_zero_mulAdd hda hda (Binary.reading_zero_mul hdb hdb)) hscale

/-- Both distances of an unchanged pixel are zero, unless its luminance is infinite. -/
theorem differs_of_unchanged {a b : ℝ}
    (hl : v.leftScales.value 0 x y = v.rightScales.value 0 x y)
    (ha : v.left.a.get x y = v.right.a.get x y) (hb : v.left.b.get x y = v.right.b.get x y)
    (hfa : Bounded a (v.left.a.get x y)) (hfb : Bounded b (v.left.b.get x y)) :
    v.differs x y = (v.factor x y).isNaN := by
  have hluminance : ¬v.luminanceDistance x y >
      v.factor x y * visibleThreshold (v.adaptation x y) :=
    Binary.not_lt_of_unsigned (Binary.unsigned_mul (v.unsigned_factor x y)
      (unsigned_visibleThreshold _)) (luminanceDistance_of_unchanged hl)
  have hcolour := colourDistance_of_unchanged ha hb hfa hfb
  rw [differs, if_neg hluminance]
  obtain hf | hf := v.unsigned_factor x y
  · have hle : ¬v.colourDistance x y ≤ v.factor x y := by
      intro hle
      obtain ⟨a, b, -, hb, -⟩ := Binary.le_iff.mp hle
      rw [hf] at hb
      cases hb
    rw [decide_eq_false hle, Binary.isNaN_iff_reading.mpr hf]
    rfl
  · rw [decide_eq_true (Binary.zero_le_of_atLeast hf hcolour), Bool.eq_false_iff.mpr hf.not_nan]
    rfl

/-- A pixel of one colour in both pictures, whatever the rest of them. -/
theorem differs_under_of_unchanged {c : Conditions} (hv : c.validate = .ok ())
    {left right : Plane UInt32 w h}
    (hc : straightColour (left.get x y) = straightColour (right.get x y)) :
    (under c left right).differs x y = ((under c left right).factor x y).isNaN := by
  obtain ⟨hfinite, hpos, -⟩ := Conditions.inRange_of_validate hv .gamma
  obtain ⟨bound, hbound⟩ := Binary.upTo_of_isFinite hfinite hpos
  let seen (words : Plane UInt32 w h) : Appearance w h := .of c.gamma c.luminance words
  have hl : (seen left).luminance.get x y = (seen right).luminance.get x y := by
    rw [Appearance.get_luminance_of, Appearance.get_luminance_of, hc]
  have ha : (seen left).a.get x y = (seen right).a.get x y := by
    rw [Appearance.get_a_of, Appearance.get_a_of, hc]
  have hb : (seen left).b.get x y = (seen right).b.get x y := by
    rw [Appearance.get_b_of, Appearance.get_b_of, hc]
  have hfa : Bounded (2 ^ 53) ((seen left).a.get x y) := by
    rw [Appearance.get_a_of]
    exact (Colour.bounded_ofRgb hbound hpos _ _).1
  have hfb : Bounded (2 ^ 53) ((seen left).b.get x y) := by
    rw [Appearance.get_b_of]
    exact (Colour.bounded_ofRgb hbound hpos _ _).2
  exact differs_of_unchanged hl ha hb hfa hfb

variable {wantsMap : Bool}

/-- Where no pixel looks different, the finding is the one the shortcut answers. -/
theorem find_eq_nothing_iff :
    v.find wantsMap = ⟨0, if wantsMap then some (.clear w h) else none⟩ ↔ v.visible = ∅ := by
  rw [find_eq, Finding.mk.injEq, Finset.card_eq_zero]
  constructor
  · exact fun h => h.1
  · intro hnone
    have hclear : (.ofFn v.differs : Plane Bool w h) = Plane.fill false := by
      apply Plane.ext_get
      intro x y
      have hxy : (x, y) ∉ v.visible := by simp [hnone]
      rw [Plane.get_ofFn, Plane.get_fill]
      simpa [visible] using hxy
    rw [hclear]
    exact ⟨hnone, rfl⟩

end Viewing

namespace Bitmap

open Picture (perceive compare nothingFound)

variable {w h : Nat}

theorem plane_eq_of_words {a b : Bitmap} (ha : a.width = w ∧ a.height = h)
    (hb : b.width = w ∧ b.height = h) (hw : ∀ x y, a.word? x y = b.word? x y) :
    a.plane ha = b.plane hb := by
  apply Plane.ext_get
  intro x y
  have h := hw x.val y.val
  rw [a.word?_eq_get_plane ha, b.word?_eq_get_plane hb] at h
  exact Option.some.inj h

theorem nothingFound_eq {c : Conditions} {a : Bitmap} (ha : a.width = w ∧ a.height = h) :
    nothingFound c a.picture = ⟨0, if c.wantsMap then some (.clear w h) else none⟩ := by
  obtain ⟨rfl, rfl⟩ := ha
  rfl

/-- The pixels whose factor is NaN. -/
def unmeasured (c : Conditions) (a b : Bitmap) (ha : a.width = w ∧ a.height = h)
    (hb : b.width = w ∧ b.height = h) : Finset (Fin w × Fin h) :=
  Finset.univ.filter fun p => ((seen c a b ha hb).factor p.1 p.2).isNaN = true

section SameWords

variable {c : Conditions} {a b : Bitmap} {ha : a.width = w ∧ a.height = h}
  {hb : b.width = w ∧ b.height = h}

theorem unmeasured_eq_empty_iff :
    unmeasured c a b ha hb = ∅ ↔ ∀ x y, ((seen c a b ha hb).factor x y).isNaN = false := by
  simp [unmeasured, Finset.filter_eq_empty_iff]

theorem differs_seen_of_words (hv : c.validate = .ok ()) (hw : ∀ x y, a.word? x y = b.word? x y) :
    (seen c a b ha hb).differs = fun x y => ((seen c a b ha hb).factor x y).isNaN := by
  have hplane := plane_eq_of_words ha hb hw
  exact funext fun x => funext fun y => Viewing.differs_under_of_unchanged hv (by rw [hplane])

theorem visible_seen_of_words (hv : c.validate = .ok ()) (hw : ∀ x y, a.word? x y = b.word? x y) :
    (seen c a b ha hb).visible = unmeasured c a b ha hb := by
  rw [Viewing.visible, differs_seen_of_words hv hw]
  rfl

end SameWords

/-- Of two bitmaps with the same words, measuring finds the pixels whose factor is NaN and no
others. So it finds what the shortcut for identical pictures answers exactly if there is no such
pixel, and there is none under ordinary conditions. -/
theorem equal_words_differ_only_in_nan {c : Conditions} (hv : c.validate = .ok ()) {a b : Bitmap}
    (ha : a.width = w ∧ a.height = h) (hb : b.width = w ∧ b.height = h)
    (hw : ∀ x y, a.word? x y = b.word? x y) :
    ∃ found verdict, perceive c a.picture b.picture = .ok found ∧
      compare c a.picture b.picture = .ok verdict ∧
      found.count = (unmeasured c a b ha hb).card ∧
      found.map = (if c.wantsMap then
        some ⟨w, h, .ofFn fun x y => ((seen c a b ha hb).factor x y).isNaN⟩ else none) ∧
      verdict.isIdentical = true ∧ verdict.finding = nothingFound c a.picture ∧
      (found = verdict.finding ↔ unmeasured c a b ha hb = ∅) ∧
      (c.Ordinary w → unmeasured c a b ha hb = ∅) := by
  have hdiffers : (seen c a b ha hb).differs = _ := differs_seen_of_words hv hw
  have hvisible : (seen c a b ha hb).visible = _ := visible_seen_of_words hv hw
  have hidentical : a.picture.identical b.picture = true := by
    rw [identical_picture_iff, ha.1, ha.2]
    exact ⟨hb, hw⟩
  refine ⟨_, _, perceive_eq_find hv ha hb, Picture.compare_of_identical hv hidentical, ?_, ?_, rfl,
    rfl, ?_, fun ho => ?_⟩
  · rw [Viewing.find_eq]
    exact congrArg Finset.card hvisible
  · rw [Viewing.find_eq, ← hdiffers]
    rfl
  · rw [← hvisible, ← Viewing.find_eq_nothing_iff, ← nothingFound_eq ha]
    rfl
  · rw [unmeasured_eq_empty_iff]
    exact fun x y => Bool.eq_false_iff.mpr (Viewing.not_nan_factor hv ho x y)

/-- Black rows are found to be equal to themselves. -/
theorem equal_black_rows_have_no_nan :
    ({} : Conditions).validate = .ok () ∧ ({} : Conditions).Ordinary 16 ∧
      ∃ found verdict, perceive {} (blackRow 0).picture (blackRow 0).picture = .ok found ∧
        compare {} (blackRow 0).picture (blackRow 0).picture = .ok verdict ∧
        found = verdict.finding := by
  have hv : ({} : Conditions).validate = .ok () := by rfl
  have hs : (blackRow 0).width = 16 ∧ (blackRow 0).height = 1 := ⟨rfl, rfl⟩
  have ho : ({} : Conditions).Ordinary 16 :=
    ⟨by decide +kernel, by decide +kernel, by decide +kernel⟩
  obtain ⟨found, verdict, hf, hc, -, -, -, -, hiff, hnone⟩ :=
    equal_words_differ_only_in_nan hv hs hs fun _ _ => rfl
  exact ⟨hv, ho, found, verdict, hf, hc, hiff.mpr (hnone ho)⟩

/-- One white pixel. -/
def whitePixel : Bitmap where
  bytes := ⟨Array.replicate 4 255⟩
  width := 1
  height := 1
  stride := 4
  row_le := by decide
  needed_le := by simp [bytesNeeded, ByteArray.size]

/-- A display of the largest luminance. -/
def dazzling : Conditions := { luminance := 3.4028235e38, wantsMap := true }

/-- White is infinitely bright there and is found to differ from itself, although the shortcut for
identical pictures finds nothing. -/
theorem dazzling_white_differs_from_itself :
    dazzling.validate = .ok () ∧
      ∃ found verdict, perceive dazzling whitePixel.picture whitePixel.picture = .ok found ∧
        compare dazzling whitePixel.picture whitePixel.picture = .ok verdict ∧
        found.count = 1 ∧ found.map = some ⟨1, 1, .fill true⟩ ∧ verdict.finding.count = 0 := by
  have hv : dazzling.validate = .ok () := by
    have hrange : dazzling.firstOutOfRange = none := by decide +kernel
    rw [Conditions.validate_eq, hrange]
  have hs : whitePixel.width = 1 ∧ whitePixel.height = 1 := ⟨rfl, rfl⟩
  have hform : ∀ x y : Fin 1, Binary.Value.ofSingle
      ((Appearance.of dazzling.gamma dazzling.luminance
        (whitePixel.plane (w := 1) (h := 1) ⟨rfl, rfl⟩)).luminance.get x y) = .infinite false := by
    decide +kernel
  have hinfinite (x y : Fin 1) : reading ((Appearance.of dazzling.gamma dazzling.luminance
      (whitePixel.plane hs)).luminance.get x y) = .infinite false :=
    congrArg Binary.Value.reading (hform x y)
  have hnan (x y : Fin 1) : ((seen dazzling whitePixel whitePixel hs hs).factor x y).isNaN = true :=
    Viewing.isNaN_factor_of_infinite hinfinite hinfinite x y
  have hdiffers : (seen dazzling whitePixel whitePixel hs hs).differs = fun _ _ => true :=
    (differs_seen_of_words hv fun _ _ => rfl).trans (funext fun x => funext (hnan x))
  have hidentical : whitePixel.picture.identical whitePixel.picture = true := by
    rw [identical_picture_iff]
    exact ⟨hs, fun _ _ => rfl⟩
  refine ⟨hv, _, _, perceive_eq_find hv hs hs, Picture.compare_of_identical hv hidentical, ?_, ?_,
    rfl⟩
  · change (Viewing.find (seen dazzling whitePixel whitePixel hs hs) _).count = 1
    rw [Viewing.find_eq, Viewing.visible, hdiffers]
    rfl
  · change (Viewing.find (seen dazzling whitePixel whitePixel hs hs) _).map = _
    rw [Viewing.find_eq, hdiffers]
    rfl

end Bitmap

end VisibleDifference
