import VisibleDifference.Binary.Angle
import VisibleDifference.Pyramid.Contrast
import VisibleDifference.Vision.Sensitivity

/-!
# Viewing bands

Which spatial frequencies the levels of a pyramid show, given the width of a picture and the angle
under which it is seen. Each level halves the frequency of the one before. A band lies between two
consecutive levels and is measured against a third, so there are two bands fewer than levels.
-/

namespace VisibleDifference

/-- The largest finite single-precision number. -/
def largestFinite : Float32 := 3.4028235e38

structure ViewingBands where
  /-- The level that shows the luminance the eye adapts to. -/
  adaptationLevel : Fin levelCount
  /-- Cycles per degree of each level. -/
  frequency : Vector Float32 levelCount
  /-- How much less than at its peak the eye is sensitive to each band. -/
  weight : Vector Float32 bandCount

namespace ViewingBands

/-- How often `size` is doubled before it exceeds `extent`, at most as often as the count says. -/
def doublingsPast (extent : Float32) : Nat → Float32 → Nat
  | 0, _ => 0
  | n + 1, size => if size > extent then 0 else doublingsPast extent n (2 * size) + 1

theorem doublingsPast_le (extent : Float32) (n : Nat) (size : Float32) :
    doublingsPast extent n size ≤ n := by
  induction n generalizing size with
  | zero => exact Nat.le_refl 0
  | succ n ih =>
    unfold doublingsPast
    split
    · exact Nat.zero_le _
    · exact Nat.succ_le_succ (ih _)

/-- The first level whose blur covers one degree of a picture that spans `extent`. -/
def adaptationLevelOf (extent : Float32) : Fin levelCount :=
  ⟨doublingsPast extent (levelCount - 1) 1, Nat.lt_succ_of_le (doublingsPast_le _ _ _)⟩

/-- `f` halved `n` times. -/
def halved (f : Float32) : Nat → Float32
  | 0 => f
  | n + 1 => 0.5 * halved f n

/-- Sensitivity is greatest at this frequency for the luminance it is measured at. -/
def peakFrequency : Float32 := 3.248

def referenceLuminance : Float32 := 100

/-- Saturates for frequencies far above the visible range. -/
def weightOf (frequency : Float32) : Float32 :=
  Binary.smaller
    (contrastSensitivity peakFrequency referenceLuminance /
      contrastSensitivity frequency referenceLuminance)
    largestFinite

/-- The bands of a picture `width` pixels wide that spans `extent` units of one degree. -/
def ofExtent (width : Nat) (extent : Float32) : ViewingBands :=
  let frequency : Vector Float32 levelCount :=
    Vector.ofFn fun l => halved (0.5 * (Float32.ofNat width / extent)) l.val
  { adaptationLevel := adaptationLevelOf extent
    frequency
    weight := Vector.ofFn fun b => weightOf frequency[b.val] }

/-- The bands of a picture seen under an angle of `fieldOfView` degrees. -/
def of (width : Nat) (fieldOfView : Float32) : ViewingBands :=
  ofExtent width (Binary.flatExtent fieldOfView)

end ViewingBands

end VisibleDifference
