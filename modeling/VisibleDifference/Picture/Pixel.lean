/-!
# Pixels

A stored pixel is a 32-bit word: alpha in the top byte, then red, green and blue, the colour
channels multiplied by alpha. `straight` divides alpha out again and `premultiplied` puts it in;
both round to the nearest integer, `straight` upwards and `premultiplied` downwards on a tie.
-/

namespace VisibleDifference

/-- Colour without alpha. -/
structure Rgb where
  red : UInt8
  green : UInt8
  blue : UInt8
deriving DecidableEq, Repr

/-- Straight colour and its opacity. -/
structure Rgba where
  red : UInt8
  green : UInt8
  blue : UInt8
  alpha : UInt8
deriving DecidableEq, Repr

/-- Colour multiplied by opacity. -/
structure Argb where
  alpha : UInt8
  red : UInt8
  green : UInt8
  blue : UInt8
deriving DecidableEq, Repr

namespace Argb

def ofWord (word : UInt32) : Argb where
  alpha := (word >>> 24).toUInt8
  red := (word >>> 16).toUInt8
  green := (word >>> 8).toUInt8
  blue := word.toUInt8

def toWord (p : Argb) : UInt32 :=
  p.alpha.toUInt32 <<< 24 ||| p.red.toUInt32 <<< 16 ||| p.green.toUInt32 <<< 8 ||| p.blue.toUInt32

/-- A channel above its alpha, which no multiplied colour has, saturates. -/
def straightChannel (alpha c : Nat) : Nat :=
  if alpha = 0 then 0 else min 255 ((c * 255 + alpha / 2) / alpha)

/-- A fully transparent pixel is black. -/
def straight (p : Argb) : Rgb where
  red := .ofNat (straightChannel p.alpha.toNat p.red.toNat)
  green := .ofNat (straightChannel p.alpha.toNat p.green.toNat)
  blue := .ofNat (straightChannel p.alpha.toNat p.blue.toNat)

end Argb

namespace Rgba

def multipliedChannel (alpha c : Nat) : Nat := (c * alpha + 127) / 255

def premultiplied (p : Rgba) : Argb where
  alpha := p.alpha
  red := .ofNat (multipliedChannel p.alpha.toNat p.red.toNat)
  green := .ofNat (multipliedChannel p.alpha.toNat p.green.toNat)
  blue := .ofNat (multipliedChannel p.alpha.toNat p.blue.toNat)

/-- The same four bytes as a picture to be saved. -/
def ofArgb (p : Argb) : Rgba := ⟨p.red, p.green, p.blue, p.alpha⟩

end Rgba

/-- The straight colour of a stored pixel. -/
def straightColour (word : UInt32) : Rgb := (Argb.ofWord word).straight

end VisibleDifference
