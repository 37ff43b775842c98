import VisibleDifference.Picture.Basic

/-!
# Exact differences

How many pixels differ in any way, by how much at the most, and an opaque picture of where. Equal
pixels are drawn black. Each channel that differs is drawn four times as strong over a base of 128,
so that the smallest difference shows; a pixel that differs in alpha alone is drawn grey.
-/

namespace VisibleDifference

def channelDistance (a b : UInt8) : Nat := max a.toNat b.toNat - min a.toNat b.toNat

/-- The strength with which a channel difference is drawn. -/
def shown (distance : Nat) : UInt8 :=
  if distance = 0 then 0 else .ofNat (min 255 (distance * 4 + 128))

/-- The largest difference of a channel. -/
def pixelDistance (p q : UInt32) : Nat :=
  let p := Argb.ofWord p
  let q := Argb.ofWord q
  max (max (channelDistance p.alpha q.alpha) (channelDistance p.red q.red))
    (max (channelDistance p.green q.green) (channelDistance p.blue q.blue))

/-- How the difference of two pixels is drawn. -/
def drawn (p q : UInt32) : UInt32 :=
  let p := Argb.ofWord p
  let q := Argb.ofWord q
  let red := shown (channelDistance p.red q.red)
  let green := shown (channelDistance p.green q.green)
  let blue := shown (channelDistance p.blue q.blue)
  if red = 0 ∧ green = 0 ∧ blue = 0 then
    let grey := shown (channelDistance p.alpha q.alpha)
    Argb.toWord ⟨255, grey, grey, grey⟩
  else Argb.toWord ⟨255, red, green, blue⟩

structure Difference where
  changed : Nat
  greatest : Nat
  picture : Picture

namespace Difference

/-- What the pixels seen so far add up to. -/
def step (s : Nat × Nat) (pq : UInt32 × UInt32) : Nat × Nat :=
  (if pq.1 = pq.2 then s.1 else s.1 + 1, max s.2 (pixelDistance pq.1 pq.2))

def ofPlanes {w h : Nat} (a b : Plane UInt32 w h) : Difference :=
  let (changed, greatest) := (a.toList.zip b.toList).foldl step (0, 0)
  ⟨changed, greatest, ⟨w, h, Plane.ofFn fun x y => drawn (a.get x y) (b.get x y)⟩⟩

end Difference

def Picture.difference (a b : Picture) : Except Fault Difference :=
  if hs : a.SameSize b then .ok (.ofPlanes a.words (b.alignedTo a hs)) else .error (a.sizeFault b)

end VisibleDifference
