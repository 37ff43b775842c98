import Mathlib
import VisibleDifference.Binary.Value

/-!
# Bits and forms of single-precision numbers

A number is kept as its bits and computed with in an unpacked form. Unpacking reads the three
fields of the bits, packing writes them. A form is canonical if it is one that bits unpack to; packing
loses nothing of a canonical form, and a mantissa with too large an exponent becomes an infinity.
So numbers with equal forms are equal, and `Value.ofSingle` reads the same value off the bits as
off the form.
-/

namespace VisibleDifference.Binary

open Float.Model (Format UnpackedFloat)
open Float.Model.UnpackedFloat

theorem toNat_unpackMantissa (b : BitVec 32) :
    (@unpackMantissa Format.binary32 b).toNat = b.toNat % 2 ^ 23 := by
  simp [unpackMantissa]

theorem toNat_unpackExponent (b : BitVec 32) :
    (@unpackExponent Format.binary32 b).toNat = b.toNat / 2 ^ 23 % 2 ^ 8 := by
  simp [unpackExponent, Nat.shiftRight_eq_div_pow]

theorem toNat_unpackSign (b : BitVec 32) :
    (@unpackSign Format.binary32 b).toNat = b.toNat / 2 ^ 31 := by
  have := b.isLt
  simp [unpackSign, Nat.shiftRight_eq_div_pow]
  omega

theorem toNat_one_append (f : BitVec 23) : (1#1 ++ f).toNat = f.toNat + 2 ^ 23 := by
  rw [BitVec.toNat_append, ← Nat.shiftLeft_add_eq_or_of_lt f.isLt]
  simp [Nat.shiftLeft_eq, Nat.add_comm]

/-- What the three fields of a number stand for. -/
def ofFields (s : Sign) (x f : Nat) : UnpackedFloat :=
  if x = 255 then if f = 0 then .infinity s else .notANumber
  else if x = 0 then if h : f = 0 then .zero s else .finite s f (-149) (Nat.pos_of_ne_zero h)
  else .finite s (f + 2 ^ 23) ((x : Int) - 150) (by omega)

theorem unpack_eq_ofFields (b : BitVec 32) :
    unpack Format.binary32 b =
      ofFields (.ofBitVec (@unpackSign Format.binary32 b)) (b.toNat / 2 ^ 23 % 2 ^ 8)
        (b.toNat % 2 ^ 23) := by
  have hinf : @unpackExponent Format.binary32 b = -1#_ ↔ b.toNat / 2 ^ 23 % 2 ^ 8 = 255 := by
    rw [← BitVec.toNat_inj, toNat_unpackExponent]; rfl
  have hsub : @unpackExponent Format.binary32 b = 0#_ ↔ b.toNat / 2 ^ 23 % 2 ^ 8 = 0 := by
    rw [← BitVec.toNat_inj, toNat_unpackExponent]; rfl
  have hzero : @unpackMantissa Format.binary32 b = 0#_ ↔ b.toNat % 2 ^ 23 = 0 := by
    rw [← BitVec.toNat_inj, toNat_unpackMantissa]; rfl
  have hbias : ((Format.binary32.exponentBias : Int) + (23 : Nat)) = 150 := rfl
  simp only [unpack, ofFields, hinf, hsub, hzero, toNat_unpackMantissa, toNat_unpackExponent,
    toNat_one_append, hbias]
  split
  · rfl
  · split
    next h =>
      split
      · rfl
      · congr 1
        rw [h]; rfl
    · rfl

theorem toNat_packComponents (s : Sign) (x : BitVec 8) (f : BitVec 23) :
    (packComponents Format.binary32 s x f).toNat =
      (s.toBitVec.toNat * 2 ^ 8 + x.toNat) * 2 ^ 23 + f.toNat := by
  simp only [packComponents, BitVec.toNat_append]
  rw [← Nat.shiftLeft_add_eq_or_of_lt f.isLt, ← Nat.shiftLeft_add_eq_or_of_lt x.isLt]
  simp only [Nat.shiftLeft_eq]

theorem unpack_packComponents (s : Sign) (x : BitVec 8) (f : BitVec 23) :
    unpack Format.binary32 (packComponents Format.binary32 s x f) = ofFields s x.toNat f.toNat := by
  have hx := x.isLt
  have hf := f.isLt
  have hs : Sign.ofBitVec
      (@unpackSign Format.binary32 (packComponents Format.binary32 s x f)) = s := by
    rw [unpackSign_packComponents, Sign.ofBitVec_toBitVec]
  rw [unpack_eq_ofFields, hs, toNat_packComponents]
  congr 1 <;> omega

/-- The mantissas and exponents of single precision: each number but zero has one pair. -/
structure Canonical (m : Nat) (e : Int) : Prop where
  pos : 0 < m
  lt : m < 2 ^ 24
  least : -149 ≤ e
  greatest : e ≤ 104
  full : 2 ^ 23 ≤ m ∨ e = -149

theorem canonical_of_ofFields {s t : Sign} {x f m : Nat} {e : Int} {hm : 0 < m} (hx : x < 2 ^ 8)
    (hf : f < 2 ^ 23) (h : ofFields s x f = .finite t m e hm) : Canonical m e := by
  unfold ofFields at h
  split_ifs at h
  · cases h; exact ⟨hm, by omega, by omega, by omega, .inr rfl⟩
  · cases h; exact ⟨hm, by omega, by omega, by omega, .inl (by omega)⟩

theorem pack_finite (s : Sign) (m : Nat) (e : Int) (h : 0 < m) :
    pack Format.binary32 (.finite s m e h) =
      if 2 ^ 8 ≤ (e + 150).toNat + 1 then packedInfinity Format.binary32 s
      else if m.log2 = 23 then
        packComponents Format.binary32 s (BitVec.ofNat 8 (e + 150).toNat) (BitVec.ofNat 23 m)
      else packComponents Format.binary32 s 0#8 (BitVec.ofNat 23 m) := by
  have hbias : e + (Format.binary32.exponentBias : Int) + (23 : Nat) = e + 150 := Int.add_assoc ..
  have hbits : Format.binary32.mantissaBits = 23 + 1 := rfl
  simp only [pack, hbias, hbits, Nat.add_right_cancel_iff]

theorem log2_eq_of_full {m : Nat} (h : 2 ^ 23 ≤ m) (hlt : m < 2 ^ 24) : m.log2 = 23 :=
  (Nat.log2_eq_iff (by omega)).mpr ⟨h, hlt⟩

theorem log2_ne_of_lt {m : Nat} (hpos : 0 < m) (hlt : m < 2 ^ 23) : m.log2 ≠ 23 :=
  Nat.ne_of_lt ((Nat.log2_lt hpos.ne').mpr hlt)

theorem unpack_pack_finite {s : Sign} {m : Nat} {e : Int} (h : Canonical m e) :
    unpack Format.binary32 (pack Format.binary32 (.finite s m e h.pos)) = .finite s m e h.pos := by
  obtain ⟨hpos, hlt, hleast, hgreatest, hfull⟩ := h
  rw [pack_finite, if_neg (by omega)]
  by_cases hn : 2 ^ 23 ≤ m
  · rw [if_pos (log2_eq_of_full hn hlt), unpack_packComponents, BitVec.toNat_ofNat,
      BitVec.toNat_ofNat, ofFields, if_neg (by omega), if_neg (by omega)]
    congr 1 <;> omega
  · obtain rfl := hfull.resolve_left hn
    have hm : (BitVec.ofNat 23 m).toNat = m := by
      rw [BitVec.toNat_ofNat, Nat.mod_eq_of_lt (by omega)]
    rw [if_neg (log2_ne_of_lt hpos (by omega)), unpack_packComponents, hm]
    simp [ofFields, hpos.ne']

theorem unpack_pack_overflow {s : Sign} {m : Nat} {e : Int} (h : 0 < m) (he : 104 < e) :
    unpack Format.binary32 (pack Format.binary32 (.finite s m e h)) = .infinity s := by
  rw [pack_finite, if_pos (by omega), packedInfinity, unpack_packComponents]
  rfl

/-- Zeros, infinities and NaN have one form. -/
def IsCanonical : UnpackedFloat → Prop
  | .finite _ m e _ => Canonical m e
  | _ => True

theorem unpack_pack {f : UnpackedFloat} (h : IsCanonical f) :
    unpack Format.binary32 (pack Format.binary32 f) = f := by
  match f, h with
  | .finite _ _ _ _, h => exact unpack_pack_finite h
  | .notANumber, _ => rw [pack, packedNaN, unpack_packComponents]; rfl
  | .infinity _, _ => rw [pack, packedInfinity, unpack_packComponents]; rfl
  | .zero _, _ => rw [pack, packedZero, unpack_packComponents]; rfl

theorem isCanonical_unpack (b : BitVec 32) : IsCanonical (unpack Format.binary32 b) := by
  match h : unpack Format.binary32 b with
  | .finite _ _ _ _ =>
    rw [unpack_eq_ofFields] at h
    exact canonical_of_ofFields (Nat.mod_lt _ (by decide)) (Nat.mod_lt _ (by decide)) h
  | .notANumber | .infinity _ | .zero _ => trivial

theorem eq_of_unpack_eq {x y : Float32} (h : x.toModel.unpack = y.toModel.unpack) : x = y := by
  obtain ⟨⟨b, hb⟩⟩ := x
  obtain ⟨⟨c, hc⟩⟩ := y
  obtain rfl : b = c := UInt32.toBitVec_inj.mp ((unpack_inj_of_valid hb hc).mp h)
  rfl

theorem isCanonical_unpack_toModel (x : Float32) : IsCanonical x.toModel.unpack :=
  isCanonical_unpack _

theorem unpack_toModel_pack {f : UnpackedFloat} (h : IsCanonical f) :
    (Float32.ofModel (.pack f)).toModel.unpack = f :=
  unpack_pack h

namespace Value

def ofUnpacked : UnpackedFloat → Value
  | .notANumber => nan
  | .infinity s => infinite (s == .negative)
  | .zero s => finite (s == .negative) 0 (-149)
  | .finite s m e _ => finite (s == .negative) m e

theorem sign_eq_negative (b : UInt32) :
    (Sign.ofBitVec (@unpackSign Format.binary32 b.toBitVec) == .negative) = (b >>> 31 == 1) := by
  have hb := b.toNat_lt
  have hs := toNat_unpackSign b.toBitVec
  have hu : (b >>> 31).toNat = b.toNat / 2 ^ 31 := by
    rw [UInt32.toNat_shiftRight]
    exact Nat.shiftRight_eq_div_pow _ 31
  by_cases h : b.toNat / 2 ^ 31 = 0
  · have h₀ : @unpackSign Format.binary32 b.toBitVec = 0#1 := BitVec.eq_of_toNat_eq (hs.trans h)
    have h₁ : b >>> 31 = 0 := UInt32.toNat_inj.mp (hu.trans h)
    rw [h₀, h₁]
    rfl
  · have h : b.toNat / 2 ^ 31 = 1 := by omega
    have h₀ : @unpackSign Format.binary32 b.toBitVec = 1#1 := BitVec.eq_of_toNat_eq (hs.trans h)
    have h₁ : b >>> 31 = 1 := UInt32.toNat_inj.mp (hu.trans h)
    rw [h₀, h₁]
    rfl

theorem ofSingle_eq_ofUnpacked (x : Float32) : ofSingle x = ofUnpacked x.toModel.unpack := by
  have hbits : x.toModel.unpack = unpack Format.binary32 x.toBits.toBitVec := rfl
  have hx : ((x.toBits >>> 23) &&& 0xff).toNat = x.toBits.toNat / 2 ^ 23 % 2 ^ 8 := by
    rw [UInt32.toNat_and, UInt32.toNat_shiftRight, ← Nat.shiftRight_eq_div_pow]
    exact Nat.and_two_pow_sub_one_eq_mod _ 8
  have hf : (x.toBits &&& 0x7fffff).toNat = x.toBits.toNat % 2 ^ 23 := by
    rw [UInt32.toNat_and]
    exact Nat.and_two_pow_sub_one_eq_mod _ 23
  have hadd : ((x.toBits &&& 0x7fffff) + 0x800000).toNat = x.toBits.toNat % 2 ^ 23 + 2 ^ 23 := by
    have hbit : (0x800000 : UInt32).toNat = 2 ^ 23 := rfl
    rw [UInt32.toNat_add, hf, hbit]
    omega
  have hinf : (x.toBits >>> 23) &&& 0xff = 0xff ↔ x.toBits.toNat / 2 ^ 23 % 2 ^ 8 = 255 := by
    rw [← UInt32.toNat_inj, hx]; rfl
  have hsub : (x.toBits >>> 23) &&& 0xff = 0 ↔ x.toBits.toNat / 2 ^ 23 % 2 ^ 8 = 0 := by
    rw [← UInt32.toNat_inj, hx]; rfl
  have hzero : x.toBits &&& 0x7fffff = 0 ↔ x.toBits.toNat % 2 ^ 23 = 0 := by
    rw [← UInt32.toNat_inj, hf]; rfl
  rw [hbits, unpack_eq_ofFields, ofFields]
  simp only [ofSingle, ← sign_eq_negative, beq_iff_eq, hinf, hsub, hzero, hx, hf, hadd,
    UInt32.toNat_toBitVec]
  split_ifs with h₁ h₂ h₃ h₄
  · rfl
  · rfl
  · rw [ofUnpacked, h₄]
  · rfl
  · rfl

end Value

end VisibleDifference.Binary
