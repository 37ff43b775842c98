import VisibleDifference.Fault

/-!
# Viewing conditions

How the pictures are seen and how much may differ: the display's gamma and its luminance at white,
the horizontal angle that a picture spans, and the number of differing pixels at which two pictures
no longer match.
-/

namespace VisibleDifference

structure Conditions where
  gamma : Float32 := 2.2
  /-- In candela per square metre. -/
  luminance : Float32 := 100
  /-- In degrees. -/
  fieldOfView : Float32 := 45
  /-- Pictures match while fewer pixels than this differ visibly. -/
  threshold : Nat := 100
  /-- Whether the differing pixels are to be marked on a map. -/
  wantsMap : Bool := false

namespace Conditions

def requirePositive (quantity : Quantity) (value : Float32) : Except Fault Unit :=
  if value.isFinite ∧ 0 < value then .ok () else .error (.outOfRange quantity value)

/-- Gamma, luminance and field of view are finite and positive, the latter below a half turn. -/
def validate (c : Conditions) : Except Fault Unit := do
  requirePositive .gamma c.gamma
  requirePositive .luminance c.luminance
  requirePositive .fieldOfView c.fieldOfView
  if 180 ≤ c.fieldOfView then throw (.outOfRange .fieldOfView c.fieldOfView)

end Conditions

end VisibleDifference
