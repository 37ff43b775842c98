import VisibleDifference.Proofs.Checked.Planes
import VisibleDifference.Proofs.Checked.Rows
import VisibleDifference.Vision.Appearance

/-!
# Colours of a byte buffer

The pixels of a buffer are read row by row. Each one's straight colour is computed in words, its
light is looked up in the table of the display curve, and luminance and colour coordinates are
written to the next place of three arrays. None of this traps on a buffer that can be addressed,
and the arrays are the stored planes of its appearance.
-/

namespace VisibleDifference

open Checked

namespace Argb

/-- A straight channel, computed in words. -/
def checkedChannel (alpha c : UInt8) : Checked UInt8 :=
  if alpha = 0 then return 0
  else do
    let scaled ← word (c.toNat * 255)
    let sum ← word (scaled + alpha.toNat / 2)
    return .ofNat (min 255 (sum / alpha.toNat))

theorem checkedChannel_eq (alpha c : UInt8) :
    checkedChannel alpha c = .ok (.ofNat (straightChannel alpha.toNat c.toNat)) := by
  have ha := alpha.toNat_lt
  have hc := c.toNat_lt
  by_cases hz : alpha = 0
  · subst hz
    rfl
  · have hn : alpha.toNat ≠ 0 := fun he => hz (UInt8.toNat_inj.mp he)
    have hs : UInt32.size = 2 ^ 32 := rfl
    rw [checkedChannel, if_neg hz, word_of_lt (by omega), ok_bind, word_of_lt (by omega), ok_bind,
      straightChannel, if_neg hn]
    rfl

def checkedStraight (p : Argb) : Checked Rgb := do
  let red ← checkedChannel p.alpha p.red
  let green ← checkedChannel p.alpha p.green
  let blue ← checkedChannel p.alpha p.blue
  return ⟨red, green, blue⟩

theorem checkedStraight_eq (p : Argb) : p.checkedStraight = .ok p.straight := by
  simp only [checkedStraight, checkedChannel_eq, ok_bind]
  rfl

end Argb

namespace Colour

/-- The colour that a display shows, its curve being a table of stored entries. -/
def checkedOfRgb (curve : Array Float32) (peak : Float32) (c : Rgb) : Checked Colour := do
  let red ← read curve c.red.toNat
  let green ← read curve c.green.toNat
  let blue ← read curve c.blue.toNat
  return ofTristimulus peak (.ofLight red green blue)

theorem checkedOfRgb_eq (curve : Vector Float32 256) (peak : Float32) (c : Rgb) :
    checkedOfRgb curve.toArray peak c = .ok (ofRgb curve peak c) := by
  have hr (v : UInt8) : read curve.toArray v.toNat = .ok (curve.get ⟨v.toNat, v.toNat_lt⟩) :=
    read_of_lt (curve.size_toArray.symm ▸ v.toNat_lt)
  simp only [checkedOfRgb, hr, ok_bind]
  rfl

end Colour

/-- Three arrays that are being filled, and the place to fill next. -/
structure Canvas where
  next : Nat
  luminance : Array Float32
  a : Array Float32
  b : Array Float32

namespace Canvas

def colourOf (curve : Vector Float32 256) (peak : Float32) (word : UInt32) : Colour :=
  .ofRgb curve peak (straightColour word)

/-- A canvas for `size` pixels on which those of a list are painted. -/
def painted (curve : Vector Float32 256) (peak : Float32) (size : Nat) (done : List UInt32) :
    Canvas where
  next := done.length
  luminance := filled size 0 (fun word => (colourOf curve peak word).luminance) done
  a := filled size 0 (fun word => (colourOf curve peak word).a) done
  b := filled size 0 (fun word => (colourOf curve peak word).b) done

def paint (curve : Array Float32) (peak : Float32) (s : Canvas) (word : UInt32) :
    Checked Canvas := do
  let straight ← (Argb.ofWord word).checkedStraight
  let colour ← Colour.checkedOfRgb curve peak straight
  let luminance ← write s.luminance s.next colour.luminance
  let a ← write s.a s.next colour.a
  let b ← write s.b s.next colour.b
  let next ← size (s.next + 1)
  return { next, luminance, a, b }

theorem paint_painted (curve : Vector Float32 256) (peak : Float32) {n : Nat}
    (hn : n < addressLimit) {done : List UInt32} (word : UInt32) (hd : done.length < n) :
    paint curve.toArray peak (painted curve peak n done) word =
      .ok (painted curve peak n (done ++ [word])) := by
  have hc : (Argb.ofWord word).checkedStraight = .ok (straightColour word) :=
    Argb.checkedStraight_eq _
  have hcolour : Colour.ofRgb curve peak (straightColour word) = colourOf curve peak word := rfl
  simp only [paint, painted, hc, ok_bind, Colour.checkedOfRgb_eq, hcolour]
  rw [write_filled 0 (fun word => (colourOf curve peak word).luminance) word hd, ok_bind,
    write_filled 0 (fun word => (colourOf curve peak word).a) word hd, ok_bind,
    write_filled 0 (fun word => (colourOf curve peak word).b) word hd, ok_bind,
    size_of_lt (by omega), ok_bind, List.length_append]
  rfl

end Canvas

namespace Bitmap

theorem rowList_picture (b : Bitmap) : b.picture.words.rowList = b.rowWords := by
  funext y
  exact List.map_congr_left fun x _ => Plane.get_ofFn b.word x y

/-- The pixels of the first `y` rows. -/
def wordsAbove (b : Bitmap) (y : Nat) : List UInt32 :=
  (((List.finRange b.height).take y).map b.rowWords).flatten

@[simp] theorem wordsAbove_zero (b : Bitmap) : b.wordsAbove 0 = [] := rfl

theorem wordsAbove_succ (b : Bitmap) (y : Fin b.height) :
    b.wordsAbove (y.val + 1) = b.wordsAbove y.val ++ b.rowWords y := by
  simp [wordsAbove, List.take_add_one]

theorem length_wordsAbove (b : Bitmap) {y : Nat} (hy : y ≤ b.height) :
    (b.wordsAbove y).length = y * b.width := by
  simp [wordsAbove, List.length_flatten, Function.comp_def, Nat.min_eq_left hy]

theorem wordsAbove_height (b : Bitmap) : b.wordsAbove b.height = b.picture.words.toList := by
  rw [Plane.toList_eq_flatten, rowList_picture, wordsAbove,
    List.take_of_length_le (Nat.le_of_eq List.length_finRange)]
  rfl

end Bitmap

namespace Canvas

def paintRow (curve : Array Float32) (peak : Float32) (b : Bitmap) (s : Canvas) (y : Nat) :
    Checked Canvas := do
  let words ← b.checkedRow y
  words.foldlM (paint curve peak) s

theorem paintRow_painted (curve : Vector Float32 256) (peak : Float32) (b : Bitmap)
    (hb : b.Addressable) {y : Nat} (hy : y < b.height) :
    paintRow curve.toArray peak b (painted curve peak b.pixelCount (b.wordsAbove y)) y =
      .ok (painted curve peak b.pixelCount (b.wordsAbove (y + 1))) := by
  have hn := b.pixelCount_lt hb
  have hm := Nat.mul_le_mul_left b.width (Nat.succ_le_of_lt hy)
  rw [paintRow, b.checkedRow_eq_ok hb ⟨y, hy⟩, ok_bind, b.wordsAbove_succ ⟨y, hy⟩]
  apply foldlM_done fun done word hd => paint_painted curve peak (by omega) word hd
  rw [b.length_wordsAbove hy.le, b.length_rowWords, Nat.mul_comm, ← Nat.mul_succ]
  exact hm

end Canvas

structure StoredAppearance where
  width : Nat
  height : Nat
  luminance : Array Float32
  a : Array Float32
  b : Array Float32

namespace Appearance

def stored {w h : Nat} (p : Appearance w h) : StoredAppearance :=
  ⟨w, h, p.luminance.stored, p.a.stored, p.b.stored⟩

def ofBitmap (gamma peak : Float32) (b : Bitmap) : Checked StoredAppearance := do
  let count ← size (b.width * b.height)
  let blank := Array.replicate count (0 : Float32)
  let canvas ← forEach b.height ⟨0, blank, blank, blank⟩
    (Canvas.paintRow (displayCurve gamma).toArray peak b)
  return ⟨b.width, b.height, canvas.luminance, canvas.a, canvas.b⟩

theorem ofBitmap_eq (gamma peak : Float32) (b : Bitmap) (hb : b.Addressable) :
    ofBitmap gamma peak b = .ok (Appearance.of gamma peak b.picture.words).stored := by
  have hn : size (b.width * b.height) = .ok b.pixelCount :=
    size_of_lt (by have := b.pixelCount_lt hb; rw [Bitmap.pixelCount] at this; omega)
  have hloop := forEach_eq _ b.height fun y hy =>
    Canvas.paintRow_painted (displayCurve gamma) peak b hb hy
  have hlen : (b.wordsAbove b.height).length = b.pixelCount := by
    rw [b.length_wordsAbove (Nat.le_refl _), Nat.mul_comm, Bitmap.pixelCount]
  simp only [Canvas.painted, Bitmap.wordsAbove_zero, List.length_nil, filled_nil,
    filled_of_length_eq _ _ hlen] at hloop
  simp only [ofBitmap, hn, ok_bind, hloop, pure_eq_ok, b.wordsAbove_height, stored, of,
    Plane.stored_map, Plane.toList_map, List.map_map]
  rfl

end Appearance

end VisibleDifference
