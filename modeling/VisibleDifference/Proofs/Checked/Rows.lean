import VisibleDifference.Proofs.Checked.Basic

/-!
# Rows and pixels of a byte buffer

A row is cut out of the buffer and read four bytes at a time; a single pixel is read at its own
address. Both are checked for their place in the picture, for their addresses and for each byte.
In a buffer that can be addressed, both trap outside the picture only, and inside they give the
words of the picture.
-/

namespace VisibleDifference

namespace Bitmap

open Checked

/-- The words of the whole groups of four bytes. -/
def wordsOf : List UInt8 → List UInt32
  | b₀ :: b₁ :: b₂ :: b₃ :: rest => littleEndian b₀ b₁ b₂ b₃ :: wordsOf rest
  | _ => []

theorem wordsOf_eq {n : Nat} {l : List UInt8} (hl : l.length = 4 * n) :
    wordsOf l = (List.finRange n).map fun x =>
      littleEndian l[4 * x.val] l[4 * x.val + 1] l[4 * x.val + 2] l[4 * x.val + 3] := by
  induction n generalizing l with
  | zero =>
    obtain rfl : l = [] := List.length_eq_zero_iff.mp hl
    rfl
  | succ n ih =>
    match l, hl with
    | b₀ :: b₁ :: b₂ :: b₃ :: rest, hl =>
      have hr : rest.length = 4 * n := by simp only [List.length_cons] at hl; omega
      rw [wordsOf, ih hr, List.finRange_succ, List.map_cons, List.map_map]
      rfl

def Addressable (b : Bitmap) : Prop := b.bytes.size < addressLimit

theorem row_end_le (b : Bitmap) {y : Nat} (hy : y < b.height) :
    y * b.stride + 4 * b.width ≤ b.bytes.size := by
  have hn := b.needed_le
  rw [bytesNeeded, if_neg (by omega)] at hn
  have hm : y * b.stride ≤ b.stride * (b.height - 1) := by
    rw [Nat.mul_comm]
    exact Nat.mul_le_mul_left _ (by omega)
  omega

theorem pixelCount_le (b : Bitmap) : 4 * b.pixelCount ≤ b.bytes.size := by
  cases hh : b.height with
  | zero => simp [pixelCount, hh]
  | succ n =>
    have he := b.row_end_le (y := n) (by omega)
    have hr := Nat.mul_le_mul_left n b.row_le
    calc 4 * b.pixelCount = n * (4 * b.width) + 4 * b.width := by
          rw [pixelCount, hh, Nat.mul_succ, Nat.mul_add, Nat.mul_comm b.width, Nat.mul_left_comm]
      _ ≤ b.bytes.size := by omega

theorem pixelCount_lt (b : Bitmap) (hb : b.Addressable) : 4 * b.pixelCount < addressLimit :=
  Nat.lt_of_le_of_lt b.pixelCount_le hb

def checkedRow (b : Bitmap) (y : Nat) : Checked (List UInt32) := do
  require (y < b.height)
  let start ← size (y * b.stride)
  let stop ← size (start + (← size (b.width * 4)))
  let bytes ← slice b.bytes.data start stop
  return wordsOf bytes.toList

def rowWords (b : Bitmap) (y : Fin b.height) : List UInt32 :=
  (List.finRange b.width).map fun x => b.word x y

@[simp] theorem length_rowWords (b : Bitmap) (y : Fin b.height) :
    (b.rowWords y).length = b.width := by simp [rowWords]

theorem row?_eq_some (b : Bitmap) (y : Fin b.height) : b.row? y.val = some (b.rowWords y) :=
  dif_pos y.isLt

theorem checkedRow_eq_ok (b : Bitmap) (hb : b.Addressable) (y : Fin b.height) :
    b.checkedRow y.val = .ok (b.rowWords y) := by
  have he := b.row_end_le y.isLt
  have hlt : y.val * b.stride + b.width * 4 < addressLimit :=
    Nat.lt_of_le_of_lt (by omega) hb
  have hlen : (b.bytes.data.extract (y.val * b.stride)
      (y.val * b.stride + b.width * 4)).toList.length = 4 * b.width := by
    simp only [Array.length_toList, Array.size_extract, ByteArray.size_data]
    omega
  simp only [checkedRow, require_of y.isLt, ok_bind, size_of_lt (Nat.lt_of_le_of_lt
    (Nat.le_add_right _ (b.width * 4)) hlt), size_of_lt (Nat.lt_of_le_of_lt
    (Nat.le_add_left _ (y.val * b.stride)) hlt), size_of_lt hlt, pure_eq_ok]
  rw [slice_of_le (Nat.le_add_right _ _) (by rw [ByteArray.size_data]; omega), ok_bind,
    wordsOf_eq hlen, rowWords]
  congr 2
  funext x
  simp only [Array.getElem_toList, Array.getElem_extract, word, address,
    ByteArray.getElem_eq_getElem_data, Nat.add_assoc]

theorem checkedRow_eq_error (b : Bitmap) {y : Nat} (hy : b.height ≤ y) :
    b.checkedRow y = .error .failedCheck := by
  simp only [checkedRow, require_of_not (Nat.not_lt.mpr hy)]
  rfl

def checkedPixel (b : Bitmap) (x y : Nat) : Checked UInt32 := do
  require (x < b.width ∧ y < b.height)
  let i ← size ((← size (y * b.stride)) + (← size (x * 4)))
  let b₀ ← read b.bytes.data i
  let b₁ ← read b.bytes.data (← size (i + 1))
  let b₂ ← read b.bytes.data (← size (i + 2))
  let b₃ ← read b.bytes.data (← size (i + 3))
  return littleEndian b₀ b₁ b₂ b₃

theorem word?_eq_some (b : Bitmap) (x : Fin b.width) (y : Fin b.height) :
    b.word? x.val y.val = some (b.word x y) := dif_pos ⟨x.isLt, y.isLt⟩

theorem word?_eq_none (b : Bitmap) {x y : Nat} (hp : b.width ≤ x ∨ b.height ≤ y) :
    b.word? x y = none := dif_neg (by omega)

theorem checkedPixel_eq_ok (b : Bitmap) (hb : b.Addressable) (x : Fin b.width)
    (y : Fin b.height) : b.checkedPixel x.val y.val = .ok (b.word x y) := by
  have ha := b.address_lt x y
  have hlt : b.bytes.size < addressLimit := hb
  have hi : y.val * b.stride + x.val * 4 = b.address x y := by rw [address, Nat.mul_comm x.val]
  have hr {i : Nat} (hi : i < b.bytes.size) : read b.bytes.data i = .ok b.bytes[i] := read_of_lt hi
  have hs {n : Nat} (hn : n < b.bytes.size) : size n = .ok n := size_of_lt (by omega)
  have hp : x.val < b.width ∧ y.val < b.height := ⟨x.isLt, y.isLt⟩
  simp only [checkedPixel, require_of hp, ok_bind, hs (n := y.val * b.stride) (by omega),
    hs (n := x.val * 4) (by omega), hi, hs (n := b.address x y) (by omega),
    hs (n := b.address x y + 1) (by omega), hs (n := b.address x y + 2) (by omega), hs ha,
    hr (i := b.address x y) (by omega), hr (i := b.address x y + 1) (by omega),
    hr (i := b.address x y + 2) (by omega), hr ha, pure_eq_ok]
  rfl

theorem checkedPixel_eq_error (b : Bitmap) {x y : Nat} (hp : b.width ≤ x ∨ b.height ≤ y) :
    b.checkedPixel x y = .error .failedCheck := by
  simp only [checkedPixel, require_of_not (p := x < b.width ∧ y < b.height) (by omega)]
  rfl

end Bitmap

end VisibleDifference
