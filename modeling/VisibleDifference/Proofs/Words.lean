import Mathlib.Algebra.Group.Nat.Defs
import VisibleDifference.Picture.Bitmap

/-!
# Words and their bytes

A word is the number whose digits to the base 256 are its bytes. The stored form of a pixel is the
little-endian word of blue, green, red and alpha.
-/

namespace VisibleDifference

open Bitmap (littleEndian)

theorem toNat_littleEndian (b₀ b₁ b₂ b₃ : UInt8) :
    (littleEndian b₀ b₁ b₂ b₃).toNat =
      b₀.toNat + 2 ^ 8 * b₁.toNat + 2 ^ 16 * b₂.toNat + 2 ^ 24 * b₃.toNat := by
  have h₀ := b₀.toNat_lt
  have h₁ := b₁.toNat_lt
  have h₂ := b₂.toNat_lt
  have h₃ := b₃.toNat_lt
  have s₁ : (b₁.toUInt32 <<< 8).toNat = 2 ^ 8 * b₁.toNat := by
    simp [UInt32.toNat_shiftLeft, Nat.shiftLeft_eq]
    omega
  have s₂ : (b₂.toUInt32 <<< 16).toNat = 2 ^ 16 * b₂.toNat := by
    simp [UInt32.toNat_shiftLeft, Nat.shiftLeft_eq]
    omega
  have s₃ : (b₃.toUInt32 <<< 24).toNat = 2 ^ 24 * b₃.toNat := by
    simp [UInt32.toNat_shiftLeft, Nat.shiftLeft_eq]
    omega
  rw [littleEndian, UInt32.toNat_or, UInt32.toNat_or, UInt32.toNat_or, s₁, s₂, s₃,
    UInt8.toNat_toUInt32, Nat.or_comm b₀.toNat, ← Nat.two_pow_add_eq_or_of_lt h₀,
    Nat.or_comm _ (2 ^ 16 * _), ← Nat.two_pow_add_eq_or_of_lt (by omega),
    Nat.or_comm _ (2 ^ 24 * _), ← Nat.two_pow_add_eq_or_of_lt (by omega)]
  omega

theorem Argb.toWord_eq_littleEndian (p : Argb) :
    p.toWord = littleEndian p.blue p.green p.red p.alpha := by
  have or_reverse (a r g b : UInt32) : a ||| r ||| g ||| b = b ||| g ||| r ||| a := by ac_rfl
  exact or_reverse _ _ _ _

theorem Argb.toNat_toWord (p : Argb) :
    p.toWord.toNat =
      p.blue.toNat + 2 ^ 8 * p.green.toNat + 2 ^ 16 * p.red.toNat + 2 ^ 24 * p.alpha.toNat := by
  rw [toWord_eq_littleEndian, toNat_littleEndian]

theorem Argb.ofWord_toWord (p : Argb) : ofWord p.toWord = p := by
  obtain ⟨a, r, g, b⟩ := p
  have ha := a.toNat_lt
  have hr := r.toNat_lt
  have hg := g.toNat_lt
  have hb := b.toNat_lt
  simp only [ofWord, mk.injEq, ← UInt8.toNat_inj, UInt32.toNat_toUInt8, UInt32.toNat_shiftRight,
    Argb.toNat_toWord, Nat.shiftRight_eq_div_pow, UInt32.reduceToNat, Nat.reduceMod,
    Nat.reducePow]
  omega

theorem Argb.toWord_ofWord (word : UInt32) : (ofWord word).toWord = word := by
  have hw := word.toNat_lt
  rw [← UInt32.toNat_inj, toNat_toWord]
  simp only [ofWord, UInt32.toNat_toUInt8, UInt32.toNat_shiftRight, Nat.shiftRight_eq_div_pow,
    UInt32.reduceToNat, Nat.reduceMod, Nat.reducePow]
  omega

end VisibleDifference
