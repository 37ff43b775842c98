import VisibleDifference.Proofs.Checked.Comparison
import VisibleDifference.Proofs.Locality
import VisibleDifference.Proofs.Words

/-!
# What comparisons do not read

Measuring goes through the straight colours of the pixels and through nothing else, so it cannot
tell two buffers apart that show the same colours: alpha, colours under alpha zero, strides, and
the bytes that belong to no pixel are left out. Exact comparisons read the words and nothing
between them. Equal values go through equal computations; no law of arithmetic is used.
-/

namespace VisibleDifference

theorem Plane.map_map {α β γ : Type} {w h : Nat} (f : α → β) (g : β → γ) (p : Plane α w h) :
    (p.map f).map g = p.map fun a => g (f a) := by
  apply ext_get
  intro x y
  simp only [get_map]

theorem Plane.map_cast {α β : Type} {w h w' h' : Nat} (hw : w = w') (hh : h = h') (f : α → β)
    (p : Plane α w h) : (p.cast hw hh).map f = (p.map f).cast hw hh := by
  subst hw hh
  rfl

/-- The opaque pixel of the same straight colour. -/
def solidWord (word : UInt32) : UInt32 :=
  let c := straightColour word
  Argb.toWord ⟨255, c.red, c.green, c.blue⟩

theorem straightChannel_opaque (c : UInt8) :
    UInt8.ofNat (Argb.straightChannel 255 c.toNat) = c := by
  have hc := c.toNat_lt
  have hq : (c.toNat * 255 + 255 / 2) / 255 = c.toNat := by omega
  rw [Argb.straightChannel, if_neg (by decide), hq, Nat.min_eq_right (by omega),
    UInt8.ofNat_toNat]

theorem straightColour_solidWord (word : UInt32) :
    straightColour (solidWord word) = straightColour word := by
  have halpha : (255 : UInt8).toNat = 255 := rfl
  rw [straightColour, solidWord, Argb.ofWord_toWord]
  simp only [Argb.straight, halpha, straightChannel_opaque]

theorem straightColour_of_alpha_zero {word : UInt32} (ha : (Argb.ofWord word).alpha = 0) :
    straightColour word = ⟨0, 0, 0⟩ := by
  rw [straightColour, Argb.straight, ha]
  rfl

/-- What a display shows for a plane is decided by its straight colours. -/
theorem Appearance.of_congr {w h : Nat} {p q : Plane UInt32 w h} (gamma peak : Float32)
    (he : p.map straightColour = q.map straightColour) : of gamma peak p = of gamma peak q := by
  have hc (words : Plane UInt32 w h) :
      (words.map fun word => Colour.ofRgb (displayCurve gamma) peak (straightColour word)) =
        (words.map straightColour).map (Colour.ofRgb (displayCurve gamma) peak) :=
    (Plane.map_map _ _ _).symm
  simp only [of, hc, he]

namespace Picture

variable {α : Type}

/-- Two pictures of one size look the same at each place, pixels being told apart by `view`. -/
def SameView (view : UInt32 → α) (a b : Picture) : Prop :=
  ∃ words, b = ⟨a.width, a.height, words⟩ ∧ a.words.map view = words.map view

theorem eq_of_sameView {a b : Picture} (he : a.SameView id b) : a = b := by
  obtain ⟨words, rfl, he⟩ := he
  have hw : a.words = words := by
    apply Plane.ext_get
    intro x y
    have hxy := congrArg (fun p => p.get x y) he
    simpa only [Plane.get_map, id_eq] using hxy
  rw [← hw]

/-- The picture with each pixel made opaque. -/
def solid (p : Picture) : Picture := ⟨p.width, p.height, p.words.map solidWord⟩

theorem sameView_solid (p : Picture) : p.SameView straightColour p.solid := by
  refine ⟨p.words.map solidWord, rfl, ?_⟩
  simp only [Plane.map_map, straightColour_solidWord]

variable (c : Conditions) {a a' b b' : Picture}

theorem measure_congr (left : Plane UInt32 a.width a.height) (right : Plane UInt32 b.width b.height)
    (hl : a.words.map straightColour = left.map straightColour)
    (hr : b.words.map straightColour = right.map straightColour) (hs : a.SameSize b) :
    measure c a b hs = measure c ⟨a.width, a.height, left⟩ ⟨b.width, b.height, right⟩ hs := by
  have hr : (b.alignedTo a hs).map straightColour =
      (alignedTo ⟨b.width, b.height, right⟩ ⟨a.width, a.height, left⟩ hs).map straightColour := by
    simp only [alignedTo, Plane.map_cast, hr]
  simp only [measure, Appearance.of_congr c.gamma c.luminance hl,
    Appearance.of_congr c.gamma c.luminance hr]

/-- Measuring factors through the straight colours. -/
theorem perceive_congr (ha : a.SameView straightColour a') (hb : b.SameView straightColour b') :
    perceive c a b = perceive c a' b' := by
  obtain ⟨left, rfl, hl⟩ := ha
  obtain ⟨right, rfl, hr⟩ := hb
  have hf : fault? c a b = fault? c ⟨a.width, a.height, left⟩ ⟨b.width, b.height, right⟩ := rfl
  cases hfault : fault? c a b with
  | some fault => rw [perceive_of_fault hfault, perceive_of_fault (hf ▸ hfault)]
  | none =>
    obtain ⟨hv, hs⟩ := fault?_eq_none_iff.mp hfault
    have hs' : SameSize ⟨a.width, a.height, left⟩ ⟨b.width, b.height, right⟩ := hs
    rw [perceive_of_sameSize hv hs, perceive_of_sameSize hv hs',
      measure_congr c left right hl hr hs]

end Picture

namespace Bitmap

open Picture (perceive compare)

/-- Two buffers of one size and any strides look the same at each place. What they hold besides the
words of their pixels is left open. -/
structure SameView {α : Type} (view : UInt32 → α) (a b : Bitmap) : Prop where
  size : b.width = a.width ∧ b.height = a.height
  words : ∀ x < a.width, ∀ y < a.height, (a.word? x y).map view = (b.word? x y).map view

theorem picture_eq_plane {w h : Nat} (b : Bitmap) (hs : b.width = w ∧ b.height = h) :
    b.picture = ⟨w, h, b.plane hs⟩ := by
  obtain ⟨rfl, rfl⟩ := hs
  rfl

theorem SameView.picture {α : Type} {view : UInt32 → α} {a b : Bitmap} (he : a.SameView view b) :
    a.picture.SameView view b.picture := by
  have hget (x : Fin a.width) (y : Fin a.height) :
      view (a.picture.words.get x y) = view ((b.plane he.size).get x y) := by
    have hw := he.words x x.isLt y y.isLt
    rw [a.word?_eq_some x y, b.word?_eq_get_plane he.size] at hw
    rw [a.get_picture]
    exact Option.some.inj hw
  refine ⟨b.plane he.size, b.picture_eq_plane he.size, Plane.ext_get fun x y => ?_⟩
  rw [Plane.get_map, Plane.get_map]
  exact hget x y

/-- Two buffers of one size have the same words. -/
structure SameWords (a b : Bitmap) : Prop where
  size : b.width = a.width ∧ b.height = a.height
  words : ∀ x < a.width, ∀ y < a.height, a.word? x y = b.word? x y

theorem SameWords.picture_eq {a b : Bitmap} (he : a.SameWords b) : a.picture = b.picture := by
  have hv : a.SameView id b :=
    ⟨he.size, fun x hx y hy => congrArg (Option.map id) (he.words x hx y hy)⟩
  exact Picture.eq_of_sameView hv.picture

theorem identical_iff_sameWords (a b : Bitmap) :
    a.picture.identical b.picture = true ↔ a.SameWords b := by
  rw [identical_picture_iff]
  refine ⟨fun he => ⟨he.1, fun x _ y _ => he.2 x y⟩, fun he => ⟨he.size, fun x y => ?_⟩⟩
  have hs := he.size
  by_cases hp : x < a.width ∧ y < a.height
  · exact he.words x hp.1 y hp.2
  · rw [a.word?_eq_none (by omega), b.word?_eq_none (by omega)]

variable {a a' b b' : Bitmap}

/-- Measuring, with its arrays and checks as without, sees straight colours only. In particular it
sees no colour under alpha zero and no alpha: each pixel may as well be opaque. -/
theorem only_straight_colours_are_perceived (c : Conditions)
    (ha : a.SameView straightColour a') (hb : b.SameView straightColour b') :
    perceive c a.picture b.picture = perceive c a'.picture b'.picture ∧
    (c.validate = .ok () → b.width = a.width ∧ b.height = a.height →
      ∃ finding, perceive c a.picture b.picture = .ok finding ∧
        perceive c a'.picture b'.picture = .ok finding) ∧
    (a.Addressable → b.Addressable → a'.Addressable → b'.Addressable →
      checkedPerceive c a b = checkedPerceive c a' b') ∧
    perceive c a.picture b.picture = perceive c a.picture.solid b.picture.solid ∧
    ∀ word, (Argb.ofWord word).alpha = 0 → straightColour word = ⟨0, 0, 0⟩ := by
  have hp := Picture.perceive_congr c ha.picture hb.picture
  refine ⟨hp, fun hv hs => ?_, fun hla hlb hla' hlb' => ?_,
    Picture.perceive_congr c a.picture.sameView_solid b.picture.sameView_solid,
    fun _ => straightColour_of_alpha_zero⟩
  · have hf := Picture.perceive_of_sameSize (a := a.picture) (b := b.picture) hv hs
    exact ⟨_, hf, hp ▸ hf⟩
  · rw [checkedPerceive_eq c a b hla hlb, checkedPerceive_eq c a' b' hla' hlb', hp]

/-- Two pixels in a column: a colour under alpha zero, and grey at half its strength. -/
def veiledColumn : Bitmap where
  bytes := ⟨#[9, 8, 7, 0, 5, 64, 64, 64, 128]⟩
  width := 1
  height := 2
  stride := 5
  row_le := by decide
  needed_le := by decide

/-- The colours that show through, opaque, with bytes between and after the rows. -/
def bareColumn : Bitmap where
  bytes := ⟨#[0, 0, 0, 255, 1, 2, 128, 128, 128, 255, 3]⟩
  width := 1
  height := 2
  stride := 6
  row_le := by decide
  needed_le := by decide

/-- The veiled column is perceived as the bare one. -/
theorem veil_is_not_perceived :
    veiledColumn.SameView straightColour bareColumn ∧
      bareColumn.SameView straightColour bareColumn ∧
      ¬veiledColumn.SameWords bareColumn ∧
      ∃ finding, perceive {} veiledColumn.picture bareColumn.picture = .ok finding ∧
        perceive {} bareColumn.picture bareColumn.picture = .ok finding := by
  have hview : veiledColumn.SameView straightColour bareColumn := ⟨⟨rfl, rfl⟩, by decide +kernel⟩
  have hrefl : bareColumn.SameView straightColour bareColumn := ⟨⟨rfl, rfl⟩, fun _ _ _ _ => rfl⟩
  have hv : ({} : Conditions).validate = .ok () := by rfl
  have hne : veiledColumn.word? 0 0 ≠ bareColumn.word? 0 0 := by decide
  exact ⟨hview, hrefl, fun he => hne (he.words 0 (by decide) 0 (by decide)),
    (only_straight_colours_are_perceived {} hview hrefl).2.1 hv ⟨rfl, rfl⟩⟩

/-- Exact comparisons and verdicts read the words of the pixels and nothing between them. -/
theorem filling_is_never_read (ha : a.SameWords a') (hb : b.SameWords b') :
    a.picture.identical b.picture = a'.picture.identical b'.picture ∧
    a.picture.difference b.picture = a'.picture.difference b'.picture ∧
    (∀ c, compare c a.picture b.picture = compare c a'.picture b'.picture) ∧
    (a.Addressable → b.Addressable → a'.Addressable → b'.Addressable →
      checkedIdentical a b = checkedIdentical a' b' ∧
      checkedDifference a b = checkedDifference a' b' ∧
      ∀ c, checkedCompare c a b = checkedCompare c a' b') ∧
    ∀ p q : Bitmap, (p.picture.identical q.picture = true ↔ p.SameWords q) ∧
      (p.Addressable → q.Addressable → (checkedIdentical p q = .ok true ↔ p.SameWords q)) := by
  have hl := ha.picture_eq
  have hr := hb.picture_eq
  refine ⟨by rw [hl, hr], by rw [hl, hr], fun c => by rw [hl, hr],
    fun hla hlb hla' hlb' => ⟨?_, ?_, fun c => ?_⟩,
    fun p q => ⟨identical_iff_sameWords p q, fun hlp hlq => ?_⟩⟩
  · rw [checkedIdentical_eq a b hla hlb, checkedIdentical_eq a' b' hla' hlb', hl, hr]
  · rw [checkedDifference_eq a b hla hlb, checkedDifference_eq a' b' hla' hlb', hl, hr]
  · rw [checkedCompare_eq c a b hla hlb, checkedCompare_eq c a' b' hla' hlb', hl, hr]
  · rw [checkedIdentical_eq p q hlp hlq, Except.ok.injEq]
    exact identical_iff_sameWords p q

/-- The words of the bare column with other bytes between and none after the rows. -/
def wideColumn : Bitmap where
  bytes := ⟨#[0, 0, 0, 255, 4, 5, 6, 7, 128, 128, 128, 255]⟩
  width := 1
  height := 2
  stride := 8
  row_le := by decide
  needed_le := by decide

/-- Both columns differ from the veiled one in the same way, and not from each other. -/
theorem wide_column_differs_as_bare :
    bareColumn.SameWords wideColumn ∧ veiledColumn.SameWords veiledColumn ∧
      bareColumn.picture.difference veiledColumn.picture =
        wideColumn.picture.difference veiledColumn.picture ∧
      checkedIdentical bareColumn wideColumn = .ok true := by
  have hw : bareColumn.SameWords wideColumn := ⟨⟨rfl, rfl⟩, by decide⟩
  have hrefl : veiledColumn.SameWords veiledColumn := ⟨⟨rfl, rfl⟩, fun _ _ _ _ => rfl⟩
  have hbare : bareColumn.Addressable := by
    rw [Addressable]
    decide
  have hwide : wideColumn.Addressable := by
    rw [Addressable]
    decide
  obtain ⟨-, hd, -, -, hi⟩ := filling_is_never_read hw hrefl
  exact ⟨hw, hrefl, hd, ((hi bareColumn wideColumn).2 hbare hwide).mpr hw⟩

end Bitmap

end VisibleDifference
