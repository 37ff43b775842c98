import VisibleDifference.Comparison.Difference
import VisibleDifference.Proofs.Checked.Colours
import VisibleDifference.Proofs.SamePixels
import VisibleDifference.Proofs.Words

/-!
# Exact differences, computed in words

The channels of two pixels are shifted out one after the other, and the strength of each distance
is put back at the place of its channel. A pixel that differs in alpha alone is turned to grey by
one product. The rows of two buffers are gone through side by side. None of this traps if the
buffers can be addressed, and the difference is that of their pictures.
-/

namespace VisibleDifference

open Checked

namespace Argb

theorem toWord_and_eq_zero_iff (p : Argb) :
    p.toWord &&& 0x00ffffff = 0 ↔ p.red = 0 ∧ p.green = 0 ∧ p.blue = 0 := by
  have hr := p.red.toNat_lt
  have hg := p.green.toNat_lt
  have hb := p.blue.toNat_lt
  have hm : (p.toWord &&& 0x00ffffff).toNat = p.toWord.toNat % 2 ^ 24 := by
    rw [UInt32.toNat_and]
    exact Nat.and_two_pow_sub_one_eq_mod _ 24
  rw [← UInt32.toNat_inj, hm, toNat_toWord, ← UInt8.toNat_inj, ← UInt8.toNat_inj,
    ← UInt8.toNat_inj]
  simp only [UInt32.toNat_zero, UInt8.toNat_zero]
  omega

theorem toNat_toWord_shiftRight (p : Argb) : (p.toWord >>> 24).toNat = p.alpha.toNat := by
  have hr := p.red.toNat_lt
  have hg := p.green.toNat_lt
  have hb := p.blue.toNat_lt
  have hs : (p.toWord >>> 24).toNat = p.toWord.toNat / 2 ^ 24 := by
    rw [UInt32.toNat_shiftRight]
    exact Nat.shiftRight_eq_div_pow _ 24
  rw [hs, toNat_toWord]
  omega

/-- The product that turns alpha to grey. -/
theorem ofNat_mul_eq_toWord (c : UInt8) :
    UInt32.ofNat (c.toNat * 0x010101) = toWord ⟨0, c, c, c⟩ := by
  have hc := c.toNat_lt
  rw [← UInt32.toNat_inj, toNat_toWord, UInt32.toNat_ofNat']
  simp only [UInt8.toNat_zero]
  omega

theorem toWord_or_opaque (p : Argb) : p.toWord ||| 0xff000000 = toWord { p with alpha := 255 } := by
  have hopaque : (0xff000000 : UInt32) = (255 : UInt8).toUInt32 <<< 24 := rfl
  have ha : p.alpha ||| 255 = 255 := UInt8.or_neg_one
  have hor (a r g b c : UInt32) : a ||| r ||| g ||| b ||| c = (a ||| c) ||| r ||| g ||| b := by
    ac_rfl
  rw [toWord, hopaque, hor, ← UInt32.shiftLeft_or, ← UInt8.toUInt32_or, ha]
  rfl

end Argb

/-- Byte `i` of a pixel, the lowest being byte `0`. -/
def byteOf (p : UInt32) (i : Fin 4) : UInt8 := (p >>> UInt32.ofNat (i.val * 8)).toUInt8

def checkedByte (p : UInt32) (i : Nat) : Checked UInt8 := do
  let shift ← word (i * 8)
  require (shift < 32)
  return (p >>> UInt32.ofNat shift).toUInt8

theorem checkedByte_eq (p : UInt32) (i : Fin 4) : checkedByte p i.val = .ok (byteOf p i) := by
  have hi := i.isLt
  have hs : UInt32.size = 2 ^ 32 := rfl
  rw [checkedByte, word_of_lt (by omega), ok_bind, require_of (by omega)]
  rfl

/-- The strength with which a distance is drawn, computed in words. -/
def checkedShown (distance : Nat) : Checked Nat := do
  if distance = 0 then return 0
  let scaled ← word (distance * 4)
  let lifted ← word (scaled + 128)
  return min lifted 255

theorem checkedShown_eq {distance : Nat} (hd : distance < 256) :
    checkedShown distance = .ok (shown distance).toNat := by
  have hs : UInt32.size = 2 ^ 32 := rfl
  rw [checkedShown, shown]
  by_cases hz : distance = 0
  · rw [if_pos hz, if_pos hz]
    rfl
  · rw [if_neg hz, if_neg hz, word_of_lt (by omega), ok_bind, word_of_lt (by omega), ok_bind,
      pure_eq_ok, UInt8.toNat_ofNat_of_lt' (Nat.lt_succ_of_le (Nat.min_le_left _ _)), Nat.min_comm]

theorem channelDistance_lt (a b : UInt8) : channelDistance a b < 256 := by
  have ha := a.toNat_lt
  have hb := b.toNat_lt
  rw [channelDistance]
  omega

def addChannel (p q : UInt32) (s : Nat × UInt32) (i : Nat) : Checked (Nat × UInt32) := do
  let a ← checkedByte p i
  let b ← checkedByte q i
  let strength ← checkedShown (channelDistance a b)
  let shift ← word (i * 8)
  require (shift < 32)
  return (max s.1 (channelDistance a b), s.2 ||| UInt32.ofNat strength <<< UInt32.ofNat shift)

theorem addChannel_eq (p q : UInt32) (s : Nat × UInt32) (i : Fin 4) :
    addChannel p q s i.val =
      .ok (max s.1 (channelDistance (byteOf p i) (byteOf q i)),
        s.2 ||| (shown (channelDistance (byteOf p i) (byteOf q i))).toUInt32 <<<
          UInt32.ofNat (i.val * 8)) := by
  have hi := i.isLt
  have hs : UInt32.size = 2 ^ 32 := rfl
  rw [addChannel, checkedByte_eq, ok_bind, checkedByte_eq, ok_bind,
    checkedShown_eq (channelDistance_lt _ _), ok_bind, word_of_lt (by omega), ok_bind,
    require_of (by omega), ok_bind, UInt32.ofNat_uInt8ToNat]
  rfl

/-- How strongly the difference of two pixels is drawn in each channel. -/
def strengths (p q : UInt32) : Argb where
  alpha := shown (channelDistance (Argb.ofWord p).alpha (Argb.ofWord q).alpha)
  red := shown (channelDistance (Argb.ofWord p).red (Argb.ofWord q).red)
  green := shown (channelDistance (Argb.ofWord p).green (Argb.ofWord q).green)
  blue := shown (channelDistance (Argb.ofWord p).blue (Argb.ofWord q).blue)

theorem forEach_addChannel (p q : UInt32) (greatest : Nat) :
    forEach 4 (greatest, 0) (addChannel p q) =
      .ok (max greatest (pixelDistance p q), (strengths p q).toWord) := by
  -- blue lies lowest, so the loop meets the channels in the reverse of their order in a pixel
  rw [forEach_foldl fun i s => addChannel_eq p q s i]
  have hmax (g a b c d : Nat) :
      max (max (max (max g a) b) c) d = max g (max (max d c) (max b a)) := by omega
  have hor (a b c d : UInt32) : (0 : UInt32) ||| a <<< 0 ||| b ||| c ||| d = d ||| c ||| b ||| a := by
    rw [UInt32.zero_or, UInt32.shiftLeft_zero]
    ac_rfl
  refine congrArg Except.ok (Prod.ext ?_ ?_)
  · exact hmax _ _ _ _ _
  · exact hor _ _ _ _

/-- How the difference of two pixels is drawn; the largest distance is kept as well. -/
def checkedDrawn (p q : UInt32) (greatest : Nat) : Checked (Nat × UInt32) := do
  let (greatest, word) ← forEach 4 (greatest, 0) (addChannel p q)
  if word &&& 0x00ffffff = 0 then
    let grey ← Checked.word ((word >>> 24).toNat * 0x010101)
    return (greatest, UInt32.ofNat grey ||| 0xff000000)
  return (greatest, word ||| 0xff000000)

theorem drawn_eq (p q : UInt32) :
    drawn p q =
      if (strengths p q).red = 0 ∧ (strengths p q).green = 0 ∧ (strengths p q).blue = 0 then
        Argb.toWord ⟨255, (strengths p q).alpha, (strengths p q).alpha, (strengths p q).alpha⟩
      else Argb.toWord { strengths p q with alpha := 255 } := rfl

theorem checkedDrawn_eq (p q : UInt32) (greatest : Nat) :
    checkedDrawn p q greatest = .ok (max greatest (pixelDistance p q), drawn p q) := by
  have ha := (strengths p q).alpha.toNat_lt
  have hs : UInt32.size = 2 ^ 32 := rfl
  rw [checkedDrawn, forEach_addChannel, ok_bind, drawn_eq]
  simp only [Argb.toWord_and_eq_zero_iff, Argb.toNat_toWord_shiftRight]
  split
  · rw [word_of_lt (by omega), ok_bind, Argb.ofNat_mul_eq_toWord, Argb.toWord_or_opaque]
    rfl
  · rw [Argb.toWord_or_opaque]
    rfl

theorem channelDistance_self (a : UInt8) : channelDistance a a = 0 := by
  rw [channelDistance, Nat.max_self, Nat.min_self, Nat.sub_self]

theorem pixelDistance_self (p : UInt32) : pixelDistance p p = 0 := by
  simp only [pixelDistance, channelDistance_self, Nat.max_self]

theorem drawn_self (p : UInt32) : drawn p p = 0xff000000 := by
  simp only [drawn, channelDistance_self]
  rfl

structure StoredDifference where
  changed : Nat
  greatest : Nat
  picture : Array UInt32

namespace Difference

def stored (d : Difference) : StoredDifference := ⟨d.changed, d.greatest, d.picture.words.stored⟩

/-- The difference of the pairs of pixels gone through so far. -/
def ofPairs (done : List (UInt32 × UInt32)) : StoredDifference where
  changed := (done.foldl step (0, 0)).1
  greatest := (done.foldl step (0, 0)).2
  picture := (done.map fun pq => drawn pq.1 pq.2).toArray

theorem changed_le (done : List (UInt32 × UInt32)) : (ofPairs done).changed ≤ done.length := by
  have hgen (s : Nat × Nat) : (done.foldl step s).1 ≤ s.1 + done.length := by
    induction done generalizing s with
    | nil => exact Nat.le_refl _
    | cons pq done ih =>
      have hs : (step s pq).1 ≤ s.1 + 1 := by
        simp only [step]
        split <;> omega
      rw [List.foldl_cons, List.length_cons]
      have := ih (step s pq)
      omega
  have h0 := hgen (0, 0)
  rw [Nat.zero_add] at h0
  exact h0

def checkedStep (s : StoredDifference) (pq : UInt32 × UInt32) : Checked StoredDifference := do
  if pq.1 = pq.2 then return { s with picture := s.picture.push 0xff000000 }
  let (greatest, word) ← checkedDrawn pq.1 pq.2 s.greatest
  let changed ← size (s.changed + 1)
  return ⟨changed, greatest, s.picture.push word⟩

theorem checkedStep_ofPairs (done : List (UInt32 × UInt32)) (pq : UInt32 × UInt32)
    (hd : done.length + 1 < addressLimit) :
    checkedStep (ofPairs done) pq = .ok (ofPairs (done ++ [pq])) := by
  have hc := changed_le done
  obtain ⟨p, q⟩ := pq
  by_cases he : p = q
  · subst he
    simp [checkedStep, ofPairs, step, pixelDistance_self, drawn_self]
  · rw [checkedStep, if_neg he, checkedDrawn_eq, ok_bind]
    simp only [size_of_lt (show (ofPairs done).changed + 1 < addressLimit by omega), ok_bind]
    simp [ofPairs, step, he]

end Difference

namespace Bitmap

def addRow (a b : Bitmap) (s : StoredDifference) (y : Nat) : Checked StoredDifference := do
  let left ← a.checkedRow y
  let right ← b.checkedRow y
  (left.zip right).foldlM Difference.checkedStep s

def pairsAbove (a b : Bitmap) (y : Nat) : List (UInt32 × UInt32) :=
  (a.wordsAbove y).zip (b.wordsAbove y)

variable (a b : Bitmap)

theorem addRow_pairsAbove (ha : a.Addressable) (hb : b.Addressable)
    (hw : b.width = a.width) (hh : b.height = a.height) {y : Nat} (hy : y < a.height) :
    addRow a b (Difference.ofPairs (pairsAbove a b y)) y =
      .ok (Difference.ofPairs (pairsAbove a b (y + 1))) := by
  have hy' : y < b.height := hh.symm ▸ hy
  have hla := a.length_wordsAbove hy.le
  have hlb := b.length_wordsAbove hy'.le
  have hs : pairsAbove a b (y + 1) =
      pairsAbove a b y ++ (a.rowWords ⟨y, hy⟩).zip (b.rowWords ⟨y, hy'⟩) := by
    rw [pairsAbove, a.wordsAbove_succ ⟨y, hy⟩, b.wordsAbove_succ ⟨y, hy'⟩]
    exact List.zip_append (by rw [hla, hlb, hw])
  have hn : y * a.width + a.width ≤ a.pixelCount :=
    (Nat.succ_mul y a.width).symm.trans_le (Plane.row_le ⟨y, hy⟩)
  have hm := a.pixelCount_lt ha
  rw [addRow, a.checkedRow_eq_ok ha ⟨y, hy⟩, ok_bind, b.checkedRow_eq_ok hb ⟨y, hy'⟩, ok_bind, hs]
  apply foldlM_done (n := addressLimit - 1) fun done pq hd =>
    Difference.checkedStep_ofPairs done pq (by omega)
  simp only [pairsAbove, List.length_zip, hla, hlb, hw, length_rowWords, Nat.min_self]
  omega

def checkedDifference : Checked (Except Fault StoredDifference) := do
  if a.width ≠ b.width ∨ a.height ≠ b.height then
    return .error (.sizesDiffer a.width a.height b.width b.height)
  let _ ← size (a.width * a.height)
  let d ← forEach a.height ⟨0, 0, #[]⟩ (addRow a b)
  return .ok d

theorem checkedDifference_eq (ha : a.Addressable) (hb : b.Addressable) :
    checkedDifference a b = .ok ((a.picture.difference b.picture).map Difference.stored) := by
  by_cases hs : a.picture.SameSize b.picture
  · have hw : b.width = a.width := hs.1
    have hh : b.height = a.height := hs.2
    have hm := a.pixelCount_lt ha
    rw [pixelCount] at hm
    have hloop := forEach_eq _ a.height fun y hy => addRow_pairsAbove a b ha hb hw hh hy
    have hall : pairsAbove a b a.height = a.picture.words.toList.zip b.picture.words.toList := by
      rw [pairsAbove, a.wordsAbove_height, ← hh, b.wordsAbove_height]
    have h0 : Difference.ofPairs (pairsAbove a b 0) = ⟨0, 0, #[]⟩ := rfl
    rw [h0, hall] at hloop
    rw [checkedDifference, if_neg (by omega), size_of_lt (by omega), ok_bind, hloop, ok_bind,
      Picture.difference, dif_pos hs, Except.map, Difference.stored, Difference.ofPlanes,
      Picture.alignedTo, Plane.stored_ofFn_map, Plane.toList_cast]
    rfl
  · rw [checkedDifference, if_pos ((sizes_ne_iff a b).mpr hs), Picture.difference, dif_neg hs]
    rfl

end Bitmap

end VisibleDifference
