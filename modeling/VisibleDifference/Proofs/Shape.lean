import Mathlib.Algebra.Group.Nat.Defs
import Mathlib.Tactic.Common
import VisibleDifference.Proofs.Checked.Rows
import VisibleDifference.Proofs.Words

/-!
# Shapes that fit their bytes

A byte buffer is accepted as a bitmap exactly if every row lies in it, counted in unbounded numbers.
What is refused is refused for the first of three reasons: a row or the whole is too large for an
address, a row does not fit its stride, or bytes are missing. In an accepted bitmap rows and single
pixels are the same words, and both are refused outside the picture only.
-/

namespace VisibleDifference

namespace Bitmap

variable (bytes : ByteArray) (width height stride : Nat)

theorem bytesNeeded_of_pos {height : Nat} (hh : 0 < height) :
    bytesNeeded width height stride = stride * (height - 1) + 4 * width := if_neg (by omega)

theorem bytesNeeded_le_iff (present : Nat) :
    bytesNeeded width height stride ≤ present ↔
      ∀ y < height, y * stride + 4 * width ≤ present := by
  constructor
  · intro hn y hy
    rw [bytesNeeded_of_pos width stride (by omega)] at hn
    have hm : stride * y ≤ stride * (height - 1) := Nat.mul_le_mul_left _ (by omega)
    rw [Nat.mul_comm]
    omega
  · intro hr
    by_cases hh : height = 0
    · simp [bytesNeeded, hh]
    · rw [bytesNeeded_of_pos width stride (by omega), Nat.mul_comm]
      exact hr _ (by omega)

/-- All that opening a buffer can do, with the conditions for each. -/
theorem ofBytes_cases :
    (addressLimit ≤ 4 * width ∧
      ofBytes bytes width height stride = .error (.tooLarge width height)) ∨
    (4 * width < addressLimit ∧ stride < 4 * width ∧
      ofBytes bytes width height stride = .error (.strideTooShort width stride)) ∨
    (4 * width < addressLimit ∧ 4 * width ≤ stride ∧
      addressLimit ≤ bytesNeeded width height stride ∧
      ofBytes bytes width height stride = .error (.tooLarge width height)) ∨
    (4 * width < addressLimit ∧ 4 * width ≤ stride ∧
      bytesNeeded width height stride < addressLimit ∧
      bytes.size < bytesNeeded width height stride ∧
      ofBytes bytes width height stride =
        .error (.tooFewBytes (bytesNeeded width height stride) bytes.size)) ∨
    (4 * width < addressLimit ∧ 4 * width ≤ stride ∧
      bytesNeeded width height stride < addressLimit ∧
      bytesNeeded width height stride ≤ bytes.size ∧
      ∃ b, ofBytes bytes width height stride = .ok b ∧
        b.bytes = bytes ∧ b.width = width ∧ b.height = height ∧ b.stride = stride) := by
  by_cases hw : addressLimit ≤ 4 * width
  · exact .inl ⟨hw, if_pos hw⟩
  · by_cases hr : 4 * width ≤ stride
    · by_cases hl : addressLimit ≤ bytesNeeded width height stride
      · exact .inr (.inr (.inl ⟨by omega, hr, hl, by simp [ofBytes, hw, hr, hl]⟩))
      · by_cases hn : bytesNeeded width height stride ≤ bytes.size
        · exact .inr (.inr (.inr (.inr ⟨by omega, hr, by omega, hn,
            ⟨bytes, width, height, stride, hr, hn⟩, by simp [ofBytes, hw, hr, hl, hn],
            rfl, rfl, rfl, rfl⟩)))
        · exact .inr (.inr (.inr (.inl ⟨by omega, hr, by omega, by omega,
            by simp [ofBytes, hw, hr, hl, hn]⟩)))
    · exact .inr (.inl ⟨by omega, by omega, by simp [ofBytes, hw, hr]⟩)

theorem ofBytes_eq_ok_iff (hn : bytes.size < addressLimit) (hs : stride < addressLimit) :
    (∃ b, ofBytes bytes width height stride = .ok b) ↔
      4 * width ≤ stride ∧ ∀ y < height, y * stride + 4 * width ≤ bytes.size := by
  rw [← bytesNeeded_le_iff]
  rcases ofBytes_cases bytes width height stride with
    ⟨hw, he⟩ | ⟨-, hr, he⟩ | ⟨-, hr, hl, he⟩ | ⟨-, -, -, hp, he⟩ | ⟨-, hr, -, hp, b, he, -⟩
  · simp only [he, reduceCtorEq, exists_false, false_iff]
    omega
  · simp only [he, reduceCtorEq, exists_false, false_iff]
    omega
  · simp only [he, reduceCtorEq, exists_false, false_iff]
    omega
  · simp only [he, reduceCtorEq, exists_false, false_iff]
    omega
  · exact ⟨fun _ => ⟨hr, hp⟩, fun _ => ⟨b, he⟩⟩

/-- Rows that need too many bytes for an address are at least one. -/
theorem addressLimit_le_bytesNeeded_iff :
    addressLimit ≤ bytesNeeded width height stride ↔
      0 < height ∧ addressLimit ≤ stride * (height - 1) + 4 * width := by
  have hz : 0 < addressLimit := by decide
  by_cases hh : 0 < height
  · simp [bytesNeeded_of_pos width stride hh, hh]
  · simp only [bytesNeeded, if_pos (show height = 0 by omega), hh, false_and, iff_false]
    omega

theorem ofBytes_eq_tooLarge_iff :
    ofBytes bytes width height stride = .error (.tooLarge width height) ↔
      addressLimit ≤ 4 * width ∨
        4 * width ≤ stride ∧ 0 < height ∧ addressLimit ≤ stride * (height - 1) + 4 * width := by
  rw [← addressLimit_le_bytesNeeded_iff]
  rcases ofBytes_cases bytes width height stride with
    ⟨hw, he⟩ | ⟨hw, hr, he⟩ | ⟨-, hr, hl, he⟩ | ⟨hw, -, hl, -, he⟩ | ⟨hw, -, hl, -, b, he, -⟩
  · simp only [he, hw, true_or]
  · simp only [he, Except.error.injEq, reduceCtorEq, false_iff]
    omega
  · simp only [he, hr, hl, and_self, or_true]
  · simp only [he, Except.error.injEq, reduceCtorEq, false_iff]
    omega
  · simp only [he, reduceCtorEq, false_iff]
    omega

theorem ofBytes_eq_strideTooShort_iff :
    ofBytes bytes width height stride = .error (.strideTooShort width stride) ↔
      4 * width < addressLimit ∧ stride < 4 * width := by
  rcases ofBytes_cases bytes width height stride with
    ⟨hw, he⟩ | ⟨hw, hr, he⟩ | ⟨-, hr, -, he⟩ | ⟨-, hr, -, -, he⟩ | ⟨-, hr, -, -, b, he, -⟩
  · simp only [he, Except.error.injEq, reduceCtorEq, false_iff]
    omega
  · simp only [he, hw, hr, and_self]
  · simp only [he, Except.error.injEq, reduceCtorEq, false_iff]
    omega
  · simp only [he, Except.error.injEq, reduceCtorEq, false_iff]
    omega
  · simp only [he, reduceCtorEq, false_iff]
    omega

/-- What is neither accepted nor refused for its size or its stride misses bytes. -/
theorem ofBytes_eq_tooFewBytes
    (ho : ¬∃ b, ofBytes bytes width height stride = .ok b)
    (hl : ofBytes bytes width height stride ≠ .error (.tooLarge width height))
    (hs : ofBytes bytes width height stride ≠ .error (.strideTooShort width stride)) :
    ofBytes bytes width height stride =
      .error (.tooFewBytes (stride * (height - 1) + 4 * width) bytes.size) := by
  rcases ofBytes_cases bytes width height stride with
    ⟨-, he⟩ | ⟨-, -, he⟩ | ⟨-, -, -, he⟩ | ⟨-, -, -, hp, he⟩ | ⟨-, -, -, -, b, he, -⟩
  · exact absurd he hl
  · exact absurd he hs
  · exact absurd he hl
  · have hh : 0 < height := by
      by_contra hh
      rw [bytesNeeded, if_pos (by omega)] at hp
      omega
    rw [he, bytesNeeded_of_pos width stride hh]
  · exact absurd ⟨b, he⟩ ho

variable {bytes width height stride}

theorem shape_of_ofBytes {b : Bitmap} (hb : ofBytes bytes width height stride = .ok b) :
    b.bytes = bytes ∧ b.width = width ∧ b.height = height ∧ b.stride = stride := by
  rcases ofBytes_cases bytes width height stride with
    ⟨-, he⟩ | ⟨-, -, he⟩ | ⟨-, -, -, he⟩ | ⟨-, -, -, -, he⟩ | ⟨-, -, -, -, b', he, hs⟩
  all_goals rw [hb] at he
  all_goals cases he
  exact hs

theorem packed_eq_tooLarge (hw : addressLimit ≤ 4 * width) :
    packed bytes width height = .error (.tooLarge width height) := if_pos hw

theorem pixelCount_eq_zero_iff (b : Bitmap) : b.pixelCount = 0 ↔ b.isEmpty = true := by
  simp only [pixelCount, isEmpty, Nat.mul_eq_zero, Bool.or_eq_true, beq_iff_eq]

theorem row?_eq_none (b : Bitmap) {y : Nat} (hy : b.height ≤ y) : b.row? y = none :=
  dif_neg (by omega)

theorem exists_word (b : Bitmap) (hb : b.Addressable) (x : Fin b.width) (y : Fin b.height) :
    ∃ word, (b.rowWords y)[x.val]? = some word ∧ b.checkedPixel x.val y.val = .ok word ∧
      b.word? x.val y.val = some word ∧
      ∃ _ : y.val * b.stride + 4 * x.val + 3 < b.bytes.size,
        word.toNat = b.bytes[y.val * b.stride + 4 * x.val].toNat +
          2 ^ 8 * b.bytes[y.val * b.stride + 4 * x.val + 1].toNat +
          2 ^ 16 * b.bytes[y.val * b.stride + 4 * x.val + 2].toNat +
          2 ^ 24 * b.bytes[y.val * b.stride + 4 * x.val + 3].toNat := by
  refine ⟨b.word x y, ?_, b.checkedPixel_eq_ok hb x y, b.word?_eq_some x y,
    b.address_lt x y, toNat_littleEndian _ _ _ _⟩
  simp [rowWords]

/-- A buffer is accepted exactly if all rows lie in it, and refused with the reason otherwise; in an
accepted one, rows and pixels are read without a trap exactly inside the picture, and agree. -/
theorem ofBytes_accepts_exactly_the_shapes_that_fit (bytes : ByteArray)
    (width height stride : Nat) (hn : bytes.size < addressLimit) (hs : stride < addressLimit) :
    ((∃ b, ofBytes bytes width height stride = .ok b) ↔
      4 * width ≤ stride ∧ ∀ y < height, y * stride + 4 * width ≤ bytes.size) ∧
    (ofBytes bytes width height stride = .error (.tooLarge width height) ↔
      addressLimit ≤ 4 * width ∨
        4 * width ≤ stride ∧ 0 < height ∧ addressLimit ≤ stride * (height - 1) + 4 * width) ∧
    (ofBytes bytes width height stride = .error (.strideTooShort width stride) ↔
      4 * width < addressLimit ∧ stride < 4 * width) ∧
    ((¬∃ b, ofBytes bytes width height stride = .ok b) →
      ofBytes bytes width height stride ≠ .error (.tooLarge width height) →
      ofBytes bytes width height stride ≠ .error (.strideTooShort width stride) →
      ofBytes bytes width height stride =
        .error (.tooFewBytes (stride * (height - 1) + 4 * width) bytes.size)) ∧
    packed bytes width height = ofBytes bytes width height (4 * width) ∧
    (addressLimit ≤ 4 * width → packed bytes width height = .error (.tooLarge width height)) ∧
    ∀ b, ofBytes bytes width height stride = .ok b →
      b.pixelCount = width * height ∧ width * height < addressLimit ∧
      (b.pixelCount = 0 ↔ b.isEmpty = true) ∧
      (∀ y < height, ∃ row, b.checkedRow y = .ok row ∧ b.row? y = some row ∧ row.length = width ∧
        ∀ x < width, ∃ word, row[x]? = some word ∧ b.checkedPixel x y = .ok word ∧
          b.word? x y = some word ∧
          ∃ _ : y * stride + 4 * x + 3 < bytes.size,
            word.toNat = bytes[y * stride + 4 * x].toNat +
              2 ^ 8 * bytes[y * stride + 4 * x + 1].toNat +
              2 ^ 16 * bytes[y * stride + 4 * x + 2].toNat +
              2 ^ 24 * bytes[y * stride + 4 * x + 3].toNat) ∧
      (∀ y, height ≤ y → b.checkedRow y = .error .failedCheck ∧ b.row? y = none) ∧
      ∀ x y, width ≤ x ∨ height ≤ y →
        b.checkedPixel x y = .error .failedCheck ∧ b.word? x y = none := by
  refine ⟨ofBytes_eq_ok_iff _ _ _ _ hn hs, ofBytes_eq_tooLarge_iff _ _ _ _,
    ofBytes_eq_strideTooShort_iff _ _ _ _, ofBytes_eq_tooFewBytes _ _ _ _, rfl,
    packed_eq_tooLarge, ?_⟩
  intro b hb
  obtain ⟨rfl, rfl, rfl, rfl⟩ := shape_of_ofBytes hb
  refine ⟨rfl, ?_, b.pixelCount_eq_zero_iff, ?_, ?_, ?_⟩
  · have hp := b.pixelCount_lt hn
    rw [pixelCount] at hp
    omega
  · intro y hy
    exact ⟨b.rowWords ⟨y, hy⟩, b.checkedRow_eq_ok hn ⟨y, hy⟩, b.row?_eq_some ⟨y, hy⟩,
      by simp [rowWords], fun x hx => b.exists_word hn ⟨x, hx⟩ ⟨y, hy⟩⟩
  · exact fun y hy => ⟨b.checkedRow_eq_error hy, b.row?_eq_none hy⟩
  · exact fun x y hp => ⟨b.checkedPixel_eq_error hp, b.word?_eq_none hp⟩

/-- Two rows of two pixels, twelve bytes apart, fit 20 bytes: the last row needs no filling. -/
theorem two_rows_fit_without_last_filling :
    (ByteArray.mk (Array.replicate 20 0)).size < addressLimit ∧ 12 < addressLimit ∧
      ∃ b, ofBytes (ByteArray.mk (Array.replicate 20 0)) 2 2 12 = .ok b :=
  ⟨by decide, by decide, (ofBytes_accepts_exactly_the_shapes_that_fit
    (ByteArray.mk (Array.replicate 20 0)) 2 2 12 (by decide) (by decide)).1.mpr
      ⟨by decide, by decide⟩⟩

end Bitmap

end VisibleDifference
