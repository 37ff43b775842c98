import VisibleDifference.Comparison.Marking
import VisibleDifference.Conditions
import VisibleDifference.Picture.Basic

/-!
# Verdicts

Two pictures match if all their pixels are equal, or if fewer of them than a threshold look
different. Conditions out of range are found before pictures of different sizes.
-/

namespace VisibleDifference

structure Verdict where
  isMatch : Bool
  /-- All pixels are equal, and nothing was measured. -/
  isIdentical : Bool
  finding : Finding

namespace Picture

/-- Measures two pictures of one size. -/
def measure (c : Conditions) (a b : Picture) (hs : a.SameSize b) : Finding :=
  let left := Appearance.of c.gamma c.luminance a.words
  let right := Appearance.of c.gamma c.luminance (b.alignedTo a hs)
  (Viewing.of left right c.fieldOfView).find c.wantsMap

/-- The pixels that look different, measured even if all pixels are equal. -/
def perceive (c : Conditions) (a b : Picture) : Except Fault Finding := do
  c.validate
  if hs : a.SameSize b then return measure c a b hs else throw (a.sizeFault b)

/-- What is found without measuring when all pixels are equal. -/
def nothingFound (c : Conditions) (a : Picture) : Finding :=
  ⟨0, if c.wantsMap then some (DifferenceMap.clear a.width a.height) else none⟩

def compare (c : Conditions) (a b : Picture) : Except Fault Verdict := do
  c.validate
  if hs : a.SameSize b then
    if a.identical b then return ⟨true, true, nothingFound c a⟩
    else
      let finding := measure c a b hs
      return ⟨decide (finding.count < c.threshold), false, finding⟩
  else throw (a.sizeFault b)

end Picture

end VisibleDifference
