import VisibleDifference.Picture.Basic

/-!
# Bitmaps

Pixels in a byte buffer: four bytes a pixel, the lowest first, and rows that start a fixed number
of bytes apart. What lies between the end of a row and the start of the next is never read, and the
last row needs no such filling. Sizes in bytes are limited to 64-bit addresses.
-/

namespace VisibleDifference

def addressLimit : Nat := 1 <<< 64

/-- The bytes that `height` rows of `width` pixels span. -/
def bytesNeeded (width height stride : Nat) : Nat :=
  if height = 0 then 0 else stride * (height - 1) + 4 * width

structure Bitmap where
  bytes : ByteArray
  width : Nat
  height : Nat
  stride : Nat
  row_le : 4 * width ≤ stride
  needed_le : bytesNeeded width height stride ≤ bytes.size

namespace Bitmap

def ofBytes (bytes : ByteArray) (width height stride : Nat) : Except Fault Bitmap :=
  if addressLimit ≤ 4 * width then .error (.tooLarge width height)
  else if hr : 4 * width ≤ stride then
    let needed := bytesNeeded width height stride
    if addressLimit ≤ needed then .error (.tooLarge width height)
    else if hn : needed ≤ bytes.size then .ok ⟨bytes, width, height, stride, hr, hn⟩
    else .error (.tooFewBytes needed bytes.size)
  else .error (.strideTooShort width stride)

/-- Rows without any filling. -/
def packed (bytes : ByteArray) (width height : Nat) : Except Fault Bitmap :=
  ofBytes bytes width height (4 * width)

def pixelCount (b : Bitmap) : Nat := b.width * b.height

def isEmpty (b : Bitmap) : Bool := b.width == 0 || b.height == 0

/-- Where the bytes of a pixel start. -/
def address (b : Bitmap) (x : Fin b.width) (y : Fin b.height) : Nat :=
  y.val * b.stride + 4 * x.val

theorem address_lt (b : Bitmap) (x : Fin b.width) (y : Fin b.height) :
    b.address x y + 3 < b.bytes.size := by
  have hn := b.needed_le
  have hy := y.isLt
  have hx := x.isLt
  rw [bytesNeeded, if_neg (by omega)] at hn
  have hm : y.val * b.stride ≤ b.stride * (b.height - 1) := by
    rw [Nat.mul_comm]
    exact Nat.mul_le_mul_left _ (by omega)
  simp only [address]
  omega

def littleEndian (b₀ b₁ b₂ b₃ : UInt8) : UInt32 :=
  b₀.toUInt32 ||| b₁.toUInt32 <<< 8 ||| b₂.toUInt32 <<< 16 ||| b₃.toUInt32 <<< 24

def word (b : Bitmap) (x : Fin b.width) (y : Fin b.height) : UInt32 :=
  have ha := b.address_lt x y
  let i := b.address x y
  littleEndian b.bytes[i] b.bytes[i + 1] b.bytes[i + 2] b.bytes[i + 3]

/-- The pixels of row `y`, if there is such a row. -/
def row? (b : Bitmap) (y : Nat) : Option (List UInt32) :=
  if hy : y < b.height then some ((List.finRange b.width).map fun x => b.word x ⟨y, hy⟩) else none

def word? (b : Bitmap) (x y : Nat) : Option UInt32 :=
  if hp : x < b.width ∧ y < b.height then some (b.word ⟨x, hp.1⟩ ⟨y, hp.2⟩) else none

def picture (b : Bitmap) : Picture := ⟨b.width, b.height, Plane.ofFn b.word⟩

end Bitmap

/-- A byte buffer and the shape it is meant to have; rows are packed if there is no stride. -/
structure RawBitmap where
  bytes : ByteArray
  width : Nat
  height : Nat
  stride : Option Nat

namespace RawBitmap

def bitmap (r : RawBitmap) : Except Fault Bitmap :=
  match r.stride with
  | some stride => Bitmap.ofBytes r.bytes r.width r.height stride
  | none => Bitmap.packed r.bytes r.width r.height

def reshaped (r : RawBitmap) (width height : Nat) (stride : Option Nat) : RawBitmap :=
  { r with width, height, stride }

/-- The buffer with `values` written from `offset` on, if they fit. -/
def overwritten (r : RawBitmap) (offset : Nat) (values : ByteArray) : Option RawBitmap :=
  if offset + values.size ≤ r.bytes.size then
    some { r with bytes := values.copySlice 0 r.bytes offset values.size }
  else none

end RawBitmap

end VisibleDifference
