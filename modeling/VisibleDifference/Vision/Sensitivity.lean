import VisibleDifference.Binary.Elementary

/-!
# Sensitivity of the eye

Three measured laws: the smallest visible change of luminance at a given adaptation (fitted in
pieces over the decimal logarithm of the adaptation luminance), the sensitivity to contrast by
spatial frequency, and the masking of a contrast by the band it lies in.
-/

namespace VisibleDifference

open Binary (power exponential log10 mulAdd)

/-- The decimal logarithm of the smallest visible change, from that of the adaptation luminance. -/
def logThreshold (logAdaptation : Float32) : Float32 :=
  if logAdaptation < -3.94 then -2.86
  else if logAdaptation < -1.44 then power (mulAdd 0.405 logAdaptation 1.6) 2.18 - 2.86
  else if logAdaptation < -0.0184 then logAdaptation - 0.395
  else if logAdaptation < 1.9 then power (mulAdd 0.249 logAdaptation 0.65) 2.7 - 0.72
  else logAdaptation - 1.255

/-- The smallest visible change of luminance, both in candela per square metre. -/
def visibleThreshold (adaptation : Float32) : Float32 :=
  power 10 (logThreshold (log10 adaptation))

/-- How sensitivity to contrast depends on spatial frequency. -/
structure ContrastResponse where
  scale : Float32
  /-- How fast it decays. -/
  rate : Float32

namespace ContrastResponse

/-- The response of a viewer adapted to the given luminance. -/
def ofLuminance (luminance : Float32) : ContrastResponse where
  scale := 440 * power (1 + 0.7 / luminance) (-0.2)
  rate := 0.3 * power (1 + 100 / luminance) 0.15

/-- The sensitivity at a frequency in cycles per degree. The exponential is squared under the root
instead of inverted, so that high frequencies decay to zero. -/
def sensitivity (r : ContrastResponse) (frequency : Float32) : Float32 :=
  let decay := exponential (-r.rate * frequency)
  r.scale * frequency * (mulAdd 0.06 decay (decay * decay)).sqrt

end ContrastResponse

def contrastSensitivity (frequency luminance : Float32) : Float32 :=
  (ContrastResponse.ofLuminance luminance).sensitivity frequency

/-- By how much a contrast, weighted by the sensitivity to it, raises the threshold in its band. -/
def masking (contrast : Float32) : Float32 :=
  let a := power (392.498 * contrast) 0.7
  let b := power (0.0153 * a) 4
  power (1 + b) 0.25

end VisibleDifference
