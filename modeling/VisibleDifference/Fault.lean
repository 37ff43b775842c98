import VisibleDifference.Decimal.Shortest

/-!
# Faults

Why a picture cannot be read or two pictures cannot be compared, with one line of text for each.
-/

namespace VisibleDifference

/-- The viewing conditions that can be out of range. -/
inductive Quantity where
  | gamma
  | luminance
  | fieldOfView
deriving DecidableEq, Repr

def Quantity.name : Quantity → String
  | .gamma => "gamma"
  | .luminance => "luminance"
  | .fieldOfView => "field of view"

inductive Fault where
  | sizesDiffer (width height width₂ height₂ : Nat)
  | outOfRange (quantity : Quantity) (value : Float32)
  | strideTooShort (width stride : Nat)
  | tooFewBytes (needed present : Nat)
  | tooLarge (width height : Nat)
deriving DecidableEq

def Fault.message : Fault → String
  | .sizesDiffer w h w₂ h₂ => s!"image dimensions do not match: {w}x{h} vs {w₂}x{h₂}"
  | .outOfRange quantity value => s!"invalid {quantity.name}: {Decimal.text value}"
  | .strideTooShort width stride =>
      s!"row stride of {stride} bytes cannot hold {width} pixels"
  | .tooFewBytes needed present =>
      s!"pixel buffer holds {present} bytes, {needed} are required"
  | .tooLarge width height => s!"image of {width}x{height} pixels is too large"

end VisibleDifference
