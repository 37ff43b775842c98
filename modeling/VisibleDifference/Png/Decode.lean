import VisibleDifference.Png.Chunk
import VisibleDifference.Png.Inflate
import VisibleDifference.Picture.Raster

/-!
# Reading PNG files

All colour types and depths, with or without interlacing. Samples are scaled to eight bits, a
palette is looked up, and a colour that is declared transparent has no alpha.
-/

namespace VisibleDifference.Png

inductive ColourType where
  | grey
  | rgb
  | palette
  | greyAlpha
  | rgba
deriving DecidableEq

def ColourType.channels : ColourType → Nat
  | grey => 1
  | rgb => 3
  | palette => 1
  | greyAlpha => 2
  | rgba => 4

def ColourType.ofCode : Nat → Option ColourType
  | 0 => some grey
  | 2 => some rgb
  | 3 => some palette
  | 4 => some greyAlpha
  | 6 => some rgba
  | _ => none

def ColourType.depths : ColourType → List Nat
  | grey => [1, 2, 4, 8, 16]
  | palette => [1, 2, 4, 8]
  | _ => [8, 16]

structure Header where
  width : Nat
  height : Nat
  depth : Nat
  colours : ColourType
  interlaced : Bool

def Header.ofData (data : ByteArray) : Option Header := do
  guard (data.size = 13)
  let colours ← ColourType.ofCode (bigEndianAt data 9 1)
  let depth := bigEndianAt data 8 1
  guard (colours.depths.contains depth)
  guard (bigEndianAt data 10 2 = 0)
  let interlaced ← match bigEndianAt data 12 1 with
    | 0 => some false
    | 1 => some true
    | _ => none
  let width := bigEndianAt data 0 4
  let height := bigEndianAt data 4 4
  guard (0 < width ∧ width < 0x80000000 ∧ 0 < height ∧ height < 0x80000000)
  return { width, height, depth, colours, interlaced }

/-- The pixels whose column and row are `left` and `top` plus multiples of the steps. -/
structure Pass where
  left : Nat
  top : Nat
  columnStep : Nat
  rowStep : Nat

def Header.passes (h : Header) : List Pass :=
  if h.interlaced then
    [⟨0, 0, 8, 8⟩, ⟨4, 0, 8, 8⟩, ⟨0, 4, 4, 8⟩, ⟨2, 0, 4, 4⟩, ⟨0, 2, 2, 4⟩, ⟨1, 0, 2, 2⟩,
      ⟨0, 1, 1, 2⟩]
  else [⟨0, 0, 1, 1⟩]

def Pass.holds (p : Pass) (x y : Nat) : Bool :=
  p.left ≤ x && p.top ≤ y && (x - p.left) % p.columnStep == 0 && (y - p.top) % p.rowStep == 0

def Pass.width (p : Pass) (h : Header) : Nat := (h.width - p.left + p.columnStep - 1) / p.columnStep

def Pass.height (p : Pass) (h : Header) : Nat := (h.height - p.top + p.rowStep - 1) / p.rowStep

def Header.pixelBits (h : Header) : Nat := h.depth * h.colours.channels

def Header.rowBytes (h : Header) (width : Nat) : Nat := (width * h.pixelBits + 7) / 8

/-- Of left, above and above-left the one nearest to left plus above minus above-left. -/
def nearestNeighbour (left above corner : Nat) : Nat :=
  let distance (n : Nat) : Nat := ((left : Int) + above - corner - n).natAbs
  if distance left ≤ distance above ∧ distance left ≤ distance corner then left
  else if distance above ≤ distance corner then above
  else corner

/-- What a filter predicts from the bytes to the left, above and above-left. -/
def predicted (filter left above corner : Nat) : Option Nat :=
  match filter with
  | 0 => some 0
  | 1 => some left
  | 2 => some above
  | 3 => some ((left + above) / 2)
  | 4 => some (nearestNeighbour left above corner)
  | _ => none

/-- A row of bytes with its filter undone, given the row above; pixels are `step` bytes apart. -/
def unfilter (filter step : Nat) (above stored : ByteArray) : Option ByteArray :=
  (List.range stored.size).foldlM
    (fun row i => do
      let before (bytes : ByteArray) : Nat :=
        if i < step then 0 else (byteAt bytes (i - step)).toNat
      let p ← predicted filter (before row) (byteAt above i).toNat (before above)
      return row.push (.ofNat ((byteAt stored i).toNat + p)))
    ByteArray.empty

/-- `n` rows of `size` bytes from position `i` on, and the position after them. -/
def rowsFrom (data : ByteArray) (size step : Nat) :
    Nat → Nat → ByteArray → Option (List ByteArray × Nat)
  | 0, i, _ => some ([], i)
  | n + 1, i, above => do
      guard (i + 1 + size ≤ data.size)
      let row ← unfilter (bigEndianAt data i 1) step above (data.extract (i + 1) (i + 1 + size))
      let (rows, i) ← rowsFrom data size step n (i + 1 + size) row
      return (row :: rows, i)

/-- The rows of each pass; a pass without columns has no bytes. -/
def passRows (h : Header) (data : ByteArray) : List Pass → Nat → Option (List (Array ByteArray))
  | [], _ => some []
  | p :: ps, i => do
      let count := if p.width h = 0 then 0 else p.height h
      let step := max 1 (h.pixelBits / 8)
      let (rows, i) ← rowsFrom data (h.rowBytes (p.width h)) step count i .empty
      let rest ← passRows h data ps i
      return rows.toArray :: rest

/-- Sample number `i` of a row. -/
def sampleAt (depth : Nat) (row : ByteArray) (i : Nat) : Nat :=
  if depth = 16 then bigEndianAt row (2 * i) 2
  else
    let b := (byteAt row (i * depth / 8)).toNat
    (b >>> (8 - depth - i * depth % 8)) % (1 <<< depth)

def toEightBits (depth v : Nat) : UInt8 :=
  .ofNat (if depth = 16 then (v + 128) / 257 else v * 255 / (1 <<< depth - 1))

structure Palette where
  colours : ByteArray
  alphas : ByteArray

def Palette.entry (p : Palette) (i : Nat) : Rgba where
  red := byteAt p.colours (3 * i)
  green := byteAt p.colours (3 * i + 1)
  blue := byteAt p.colours (3 * i + 2)
  alpha := if i < p.alphas.size then byteAt p.alphas i else 255

/-- The pixel with the given samples. For grey and colour `alphas` names the transparent samples. -/
def pixelOf (h : Header) (p : Palette) (samples : List Nat) : Rgba :=
  let scale := toEightBits h.depth
  let transparent := (List.range samples.length).map fun i => bigEndianAt p.alphas (2 * i) 2
  let alpha : UInt8 := if p.alphas.size ≠ 0 ∧ samples = transparent then 0 else 255
  match h.colours, samples with
  | .grey, [v] => ⟨scale v, scale v, scale v, alpha⟩
  | .rgb, [r, g, b] => ⟨scale r, scale g, scale b, alpha⟩
  | .palette, [i] => p.entry i
  | .greyAlpha, [v, a] => ⟨scale v, scale v, scale v, scale a⟩
  | .rgba, [r, g, b, a] => ⟨scale r, scale g, scale b, scale a⟩
  | _, _ => ⟨0, 0, 0, 0⟩

def pixelAt (h : Header) (p : Palette) (passes : List (Pass × Array ByteArray)) (x y : Nat) :
    Rgba :=
  match passes.find? fun q => q.1.holds x y with
  | none => ⟨0, 0, 0, 0⟩
  | some (q, rows) =>
      let row := rows.getD ((y - q.top) / q.rowStep) .empty
      let i := (x - q.left) / q.columnStep
      let n := h.colours.channels
      pixelOf h p ((List.range n).map fun c => sampleAt h.depth row (i * n + c))

def dataOf (cs : List Chunk) (name : String) : ByteArray :=
  (cs.filter (·.name = name)).foldl (fun data c => data ++ c.data) .empty

def decode (bytes : ByteArray) : Option Raster := do
  let cs ← chunks bytes
  let first ← cs.head?
  guard (first.name = "IHDR")
  let h ← Header.ofData first.data
  let palette : Palette := ⟨dataOf cs "PLTE", dataOf cs "tRNS"⟩
  guard (h.colours ≠ .palette ∨ palette.colours.size ≠ 0)
  let data ← inflate (dataOf cs "IDAT")
  let rows ← passRows h data h.passes 0
  let passes := h.passes.zip rows
  return ⟨h.width, h.height, Plane.ofFn fun x y => pixelAt h palette passes x y⟩

end VisibleDifference.Png
