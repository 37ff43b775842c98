import Mathlib.Algebra.Order.Group.Unbundled.Int
import Mathlib.Algebra.Order.Ring.Abs
import Mathlib.Tactic.Linarith
import VisibleDifference.Picture.Raster
import VisibleDifference.Proofs.Checked.Colours
import VisibleDifference.Proofs.Words

/-!
# Putting alpha in and out

Multiplying a channel by alpha and dividing it out again are two roundings to the nearest integer.
Each is known by two inequalities between multiples of the rounded numbers, and everything else
follows from these: a multiplied channel is at most its alpha, so dividing stays within a byte;
multiplying what division returned gives the stored channel back, as the rounding error of the
division is less than half a step; and a channel that went both ways is off by no more than the two
errors together. A picture that was loaded can therefore be taken apart and loaded again.
-/

namespace VisibleDifference

open Checked

/-- The colours of a pixel. -/
inductive Channel where
  | red
  | green
  | blue

def Rgb.channel (c : Rgb) : Channel → UInt8
  | .red => c.red
  | .green => c.green
  | .blue => c.blue

def Rgba.channel (p : Rgba) : Channel → UInt8
  | .red => p.red
  | .green => p.green
  | .blue => p.blue

def Argb.channel (p : Argb) : Channel → UInt8
  | .red => p.red
  | .green => p.green
  | .blue => p.blue

theorem Rgb.ext_channel {c d : Rgb} (hc : ∀ k, c.channel k = d.channel k) : c = d := by
  obtain ⟨r, g, b⟩ := c
  obtain ⟨r', g', b'⟩ := d
  exact congr (congr (congrArg Rgb.mk (hc .red)) (hc .green)) (hc .blue)

theorem Argb.ext_channel {p q : Argb} (ha : p.alpha = q.alpha)
    (hc : ∀ k, p.channel k = q.channel k) : p = q := by
  obtain ⟨a, r, g, b⟩ := p
  obtain ⟨a', r', g', b'⟩ := q
  exact congr (congr (congr (congrArg Argb.mk ha) (hc .red)) (hc .green)) (hc .blue)

/-- Straight colours with an opacity. -/
def Rgba.ofRgb (c : Rgb) (alpha : UInt8) : Rgba := ⟨c.red, c.green, c.blue, alpha⟩

@[simp] theorem Rgba.channel_ofRgb (c : Rgb) (alpha : UInt8) (k : Channel) :
    (ofRgb c alpha).channel k = c.channel k := by
  cases k <;> rfl

/-- No colour exceeds alpha. -/
def Argb.Multiplied (p : Argb) : Prop := ∀ k, p.channel k ≤ p.alpha

section Roundings

open Argb (straightChannel)
open Rgba (multipliedChannel)

variable {a c : ℕ}

/-- A multiplied channel is within 127 of 255 parts of the product. -/
theorem multipliedChannel_bounds (a c : ℕ) :
    c * a ≤ 255 * multipliedChannel a c + 127 ∧ 255 * multipliedChannel a c ≤ c * a + 127 := by
  rw [multipliedChannel]
  omega

theorem multipliedChannel_le (hc : c ≤ 255) : multipliedChannel a c ≤ a := by
  have hbounds := multipliedChannel_bounds a c
  have hca : c * a ≤ 255 * a := Nat.mul_le_mul_right a hc
  omega

/-- A multiplied channel does not need to be cut off. -/
theorem scaled_div_le (hc : c ≤ a) : (c * 255 + a / 2) / a ≤ 255 := by
  obtain rfl | ha := Nat.eq_zero_or_pos a
  · rw [Nat.div_zero]
    exact Nat.zero_le _
  · have hlt : c * 255 + a / 2 < a * 256 := by omega
    exact Nat.le_of_lt_succ (Nat.div_lt_of_lt_mul hlt)

theorem straightChannel_eq_div (ha : 0 < a) (hc : c ≤ a) :
    straightChannel a c = (c * 255 + a / 2) / a := by
  rw [straightChannel, if_neg (Nat.ne_of_gt ha), Nat.min_eq_right (scaled_div_le hc)]

theorem straightChannel_le (a c : ℕ) : straightChannel a c ≤ 255 := by
  rw [straightChannel]
  split
  · exact Nat.zero_le _
  · exact Nat.min_le_left _ _

/-- A straight channel is within half of alpha of 255 times the multiplied one. -/
theorem straightChannel_bounds (ha : 0 < a) (hc : c ≤ a) :
    510 * c + 1 ≤ 2 * (a * straightChannel a c) + a ∧
      2 * (a * straightChannel a c) ≤ 510 * c + a := by
  have hdiv := Nat.div_add_mod (c * 255 + a / 2) a
  have hmod := Nat.mod_lt (c * 255 + a / 2) ha
  rw [← straightChannel_eq_div ha hc] at hdiv
  omega

/-- Multiplying undoes dividing: its error is less than half a step. -/
theorem multipliedChannel_straightChannel (ha : 0 < a) (ha' : a ≤ 255) (hc : c ≤ a) :
    multipliedChannel a (straightChannel a c) = c := by
  obtain ⟨hlow, hhigh⟩ := straightChannel_bounds ha hc
  have hcomm : straightChannel a c * a = a * straightChannel a c := Nat.mul_comm _ _
  rw [multipliedChannel, hcomm]
  omega

/-- The errors of both roundings add up. -/
theorem straightChannel_multipliedChannel_near (ha : 0 < a) (hc : c ≤ 255) :
    2 * (a : ℤ) * |(straightChannel a (multipliedChannel a c) : ℤ) - c| ≤ a + 254 := by
  obtain ⟨hlow, hhigh⟩ := straightChannel_bounds ha (multipliedChannel_le (a := a) hc)
  obtain ⟨hlow', hhigh'⟩ := multipliedChannel_bounds a c
  generalize straightChannel a (multipliedChannel a c) = u at hlow hhigh
  have hcomm : c * a = a * c := Nat.mul_comm _ _
  have ha' : (0 : ℤ) ≤ 2 * a := by omega
  rw [← abs_of_nonneg ha', ← abs_mul, abs_le]
  zify at hlow hhigh hlow' hhigh' hcomm
  constructor <;> linarith

end Roundings

section Pixels

theorem Rgba.channel_premultiplied (p : Rgba) (k : Channel) :
    p.premultiplied.channel k = .ofNat (multipliedChannel p.alpha.toNat (p.channel k).toNat) := by
  cases k <;> rfl

theorem Argb.channel_straight (p : Argb) (k : Channel) :
    p.straight.channel k = .ofNat (straightChannel p.alpha.toNat (p.channel k).toNat) := by
  cases k <;> rfl

theorem Rgba.toNat_channel_premultiplied (p : Rgba) (k : Channel) :
    (p.premultiplied.channel k).toNat =
      multipliedChannel p.alpha.toNat (p.channel k).toNat := by
  have hle := multipliedChannel_le (a := p.alpha.toNat) (Nat.le_of_lt_succ (p.channel k).toNat_lt)
  rw [channel_premultiplied, UInt8.toNat_ofNat_of_lt' (hle.trans_lt p.alpha.toNat_lt)]

theorem Argb.toNat_channel_straight (p : Argb) (k : Channel) :
    (p.straight.channel k).toNat = straightChannel p.alpha.toNat (p.channel k).toNat := by
  rw [channel_straight, UInt8.toNat_ofNat_of_lt' (Nat.lt_succ_of_le (straightChannel_le _ _))]

theorem Rgba.multiplied_premultiplied (p : Rgba) : p.premultiplied.Multiplied := by
  intro k
  rw [UInt8.le_iff_toNat_le, toNat_channel_premultiplied]
  exact multipliedChannel_le (Nat.le_of_lt_succ (p.channel k).toNat_lt)

/-- Taking a stored pixel apart and putting it together again changes nothing. -/
theorem Argb.Multiplied.premultiplied_straight {p : Argb} (hp : p.Multiplied) :
    (Rgba.ofRgb p.straight p.alpha).premultiplied = p := by
  refine ext_channel rfl fun k => ?_
  have hk := UInt8.le_iff_toNat_le.mp (hp k)
  rw [← UInt8.toNat_inj, Rgba.toNat_channel_premultiplied, Rgba.channel_ofRgb,
    toNat_channel_straight]
  show Rgba.multipliedChannel p.alpha.toNat _ = _
  obtain ha | ha := Nat.eq_zero_or_pos p.alpha.toNat
  · -- without any opacity there is no colour, either
    rw [ha] at hk ⊢
    rw [Nat.le_zero.mp hk]
    rfl
  · exact multipliedChannel_straightChannel ha (Nat.le_of_lt_succ p.alpha.toNat_lt) hk

/-- Opaque colours come back as they were. -/
theorem Rgba.straight_premultiplied_of_opaque {p : Rgba} (ha : p.alpha = 255) :
    p.premultiplied.straight = ⟨p.red, p.green, p.blue⟩ := by
  refine Rgb.ext_channel fun k => ?_
  have halpha : p.premultiplied.alpha.toNat = 255 := congrArg UInt8.toNat ha
  have hk := (p.channel k).toNat_lt
  have hnear := straightChannel_multipliedChannel_near (a := 255) (c := (p.channel k).toNat)
    (by decide) (by omega)
  have hsame : (⟨p.red, p.green, p.blue⟩ : Rgb).channel k = p.channel k := by cases k <;> rfl
  rw [hsame, ← UInt8.toNat_inj, Argb.toNat_channel_straight, toNat_channel_premultiplied, halpha,
    show p.alpha.toNat = 255 from halpha]
  exact Int.ofNat_inj.mp (sub_eq_zero.mp (abs_nonpos_iff.mp (by omega)))

end Pixels

section Words

namespace Rgba

/-- A multiplied channel, computed in words. -/
def checkedMultiplied (alpha c : UInt8) : Checked Nat := do
  let product ← word (c.toNat * alpha.toNat)
  let sum ← word (product + 127)
  return sum / 255

theorem checkedMultiplied_channel (p : Rgba) (k : Channel) :
    checkedMultiplied p.alpha (p.channel k) = .ok (p.premultiplied.channel k).toNat := by
  have hproduct : (p.channel k).toNat * p.alpha.toNat ≤ 255 * 255 :=
    Nat.mul_le_mul (Nat.le_of_lt_succ (p.channel k).toNat_lt) (Nat.le_of_lt_succ p.alpha.toNat_lt)
  have hs : UInt32.size = 2 ^ 32 := rfl
  rw [checkedMultiplied, word_of_lt (by omega), ok_bind, word_of_lt (by omega),
    toNat_channel_premultiplied]
  rfl

/-- A byte moved to its place in a word; no bit may be lost. -/
def checkedShift (c shift : Nat) : Checked UInt32 := do
  let shifted ← word (c <<< shift)
  return .ofNat shifted

theorem checkedShift_eq (c : UInt8) {shift : Nat} (hs : shift ≤ 24) :
    checkedShift c.toNat shift = .ok (c.toUInt32 <<< UInt32.ofNat shift) := by
  have hlt : c.toNat <<< shift < UInt32.size := by
    rw [Nat.shiftLeft_eq]
    calc c.toNat * 2 ^ shift ≤ c.toNat * 2 ^ 24 :=
          Nat.mul_le_mul_left _ (Nat.pow_le_pow_right two_pos hs)
      _ < 2 ^ 8 * 2 ^ 24 := Nat.mul_lt_mul_of_pos_right c.toNat_lt (by decide)
      _ = UInt32.size := rfl
  have hshift : (UInt32.ofNat shift).toNat % 32 = shift := by
    rw [UInt32.toNat_ofNat_of_lt' (by rw [UInt32.size]; omega)]
    omega
  rw [checkedShift, word_of_lt hlt]
  refine congrArg Except.ok (UInt32.toNat_inj.mp ?_)
  rw [UInt32.toNat_ofNat_of_lt' hlt, UInt32.toNat_shiftLeft, hshift, UInt8.toNat_toUInt32]
  exact (Nat.mod_eq_of_lt hlt).symm

/-- A stored pixel, put together in words. -/
def checkedWord (p : Rgba) : Checked UInt32 := do
  let red ← checkedMultiplied p.alpha p.red
  let green ← checkedMultiplied p.alpha p.green
  let blue ← checkedMultiplied p.alpha p.blue
  let first ← checkedShift p.alpha.toNat 24
  let second ← checkedShift red 16
  let third ← checkedShift green 8
  return first ||| second ||| third ||| .ofNat blue

theorem checkedWord_eq (p : Rgba) : p.checkedWord = .ok p.premultiplied.toWord := by
  have hred := checkedMultiplied_channel p .red
  have hgreen := checkedMultiplied_channel p .green
  have hblue := checkedMultiplied_channel p .blue
  simp only [channel, Argb.channel] at hred hgreen hblue
  have hlast (c : UInt8) : UInt32.ofNat c.toNat = c.toUInt32 := by
    rw [← UInt32.toNat_inj, UInt8.toNat_toUInt32,
      UInt32.toNat_ofNat_of_lt' (c.toNat_lt.trans (by decide))]
  simp only [checkedWord, hred, hgreen, hblue, ok_bind, hlast, checkedShift_eq _ (le_refl 24),
    checkedShift_eq _ (show 16 ≤ 24 by decide), checkedShift_eq _ (show 8 ≤ 24 by decide)]
  rfl

/-- The pixels of a raster one after the other. -/
theorem mapM_checkedWord (l : List Rgba) :
    l.mapM checkedWord = .ok (l.map fun p => p.premultiplied.toWord) := by
  induction l with
  | nil => rfl
  | cons p l ih =>
    rw [List.mapM_cons, checkedWord_eq, ok_bind, ih, ok_bind]
    rfl

end Rgba

end Words

section Loading

theorem straightColour_toWord (p : Argb) : straightColour p.toWord = p.straight := by
  rw [straightColour, Argb.ofWord_toWord]

/-- The pixel with the straight colours of a word and its alpha. -/
def straightPixel (word : UInt32) : Rgba :=
  .ofRgb (straightColour word) (Argb.ofWord word).alpha

theorem toWord_straightPixel {word : UInt32} (hw : (Argb.ofWord word).Multiplied) :
    (straightPixel word).premultiplied.toWord = word := by
  rw [straightPixel, straightColour, hw.premultiplied_straight, Argb.toWord_ofWord]

namespace Raster

/-- A stored picture taken apart. -/
def straightened (p : Picture) : Raster := ⟨p.width, p.height, p.words.map straightPixel⟩

theorem multiplied_picture (r : Raster) (x : Fin r.width) (y : Fin r.height) :
    (Argb.ofWord (r.picture.words.get x y)).Multiplied := by
  have hword : r.picture.words.get x y = (r.pixels.get x y).premultiplied.toWord :=
    Plane.get_map _ _ x y
  rw [hword, Argb.ofWord_toWord]
  exact Rgba.multiplied_premultiplied _

theorem picture_straightened {p : Picture}
    (hp : ∀ x y, (Argb.ofWord (p.words.get x y)).Multiplied) : (straightened p).picture = p := by
  have hwords : (p.words.map straightPixel).map (fun q => q.premultiplied.toWord) = p.words := by
    apply Plane.ext_get
    intro x y
    rw [Plane.get_map, Plane.get_map, toWord_straightPixel (hp x y)]
  exact congrArg (Picture.mk p.width p.height) hwords

/-- What loading multiplies and what is divided out again fit: a loaded pixel is never cut off, its
colours come back up to the two roundings and exactly where it is opaque, and loading a picture that
was taken apart gives the picture again, so that alpha and straight colours determine it. All of
this is computed in words without overflow. -/
theorem loading_and_straightening_fit :
    (∀ (r : Raster) (x : Fin r.width) (y : Fin r.height) (k : Channel),
      let p := Argb.ofWord (r.picture.words.get x y)
      p.channel k ≤ p.alpha ∧
        ((p.channel k).toNat * 255 + p.alpha.toNat / 2) / p.alpha.toNat ≤ 255) ∧
    (∀ (p : Rgba) (k : Channel), 1 ≤ p.alpha.toNat →
      2 * (p.alpha.toNat : ℤ) * |(((straightColour p.premultiplied.toWord).channel k).toNat : ℤ) -
        (p.channel k).toNat| ≤ p.alpha.toNat + 254) ∧
    (∀ p : Rgba, p.alpha = 255 →
      straightColour p.premultiplied.toWord = ⟨p.red, p.green, p.blue⟩) ∧
    (∀ word, (Argb.ofWord word).Multiplied → (straightPixel word).premultiplied.toWord = word) ∧
    (∀ r : Raster, (straightened r.picture).picture = r.picture) ∧
    (∀ word word', (Argb.ofWord word).Multiplied → (Argb.ofWord word').Multiplied →
      (Argb.ofWord word).alpha = (Argb.ofWord word').alpha →
      straightColour word = straightColour word' → word = word') ∧
    (∀ r : Raster, r.pixels.toList.mapM Rgba.checkedWord = .ok r.picture.words.toList) ∧
    ∀ word, (Argb.ofWord word).checkedStraight = .ok (straightColour word) := by
  refine ⟨fun r x y k => ?_, fun p k ha => ?_, fun p ha => ?_, fun word => toWord_straightPixel,
    fun r => picture_straightened r.multiplied_picture, fun word word' hw hw' ha hc => ?_,
    fun r => ?_, fun word => Argb.checkedStraight_eq _⟩
  · have hk := r.multiplied_picture x y k
    exact ⟨hk, scaled_div_le (UInt8.le_iff_toNat_le.mp hk)⟩
  · rw [straightColour_toWord, Argb.toNat_channel_straight, Rgba.toNat_channel_premultiplied]
    exact straightChannel_multipliedChannel_near ha (Nat.le_of_lt_succ (p.channel k).toNat_lt)
  · rw [straightColour_toWord, Rgba.straight_premultiplied_of_opaque ha]
  · rw [← toWord_straightPixel hw, ← toWord_straightPixel hw', straightPixel, straightPixel, ha, hc]
  · rw [Rgba.mapM_checkedWord, picture, Plane.toList_map]

/-- A half opaque word comes back, and a faint pixel is off by no more than its roundings. -/
theorem half_opaque_word_fits :
    (Argb.ofWord 0x80402010).Multiplied ∧
    (straightPixel 0x80402010).premultiplied.toWord = 0x80402010 ∧
    (straightColour (Rgba.premultiplied ⟨200, 100, 50, 3⟩).toWord).red = 170 ∧
    2 * (3 : ℤ) * |(170 : ℤ) - 200| ≤ 3 + 254 := by
  have hword : (Argb.ofWord 0x80402010).Multiplied := by
    intro k
    cases k <;> decide +kernel
  obtain ⟨-, hnear, -, hback, -⟩ := loading_and_straightening_fit
  exact ⟨hword, hback _ hword, by decide +kernel, hnear ⟨200, 100, 50, 3⟩ .red (by decide)⟩

end Raster

end Loading

end VisibleDifference
