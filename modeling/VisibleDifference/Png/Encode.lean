import VisibleDifference.Png.Chunk
import VisibleDifference.Picture.Raster

/-!
# Writing PNG files

Eight bits for each of red, green, blue and alpha, no filters and no compression: the image data is
a zlib stream of stored blocks.
-/

namespace VisibleDifference.Png

/-- The longest stored block. -/
def longestBlock : Nat := 65535

def littleEndian16 (n : Nat) : ByteArray := ⟨#[.ofNat n, .ofNat (n / 256)]⟩

/-- The bytes from `i` on in stored blocks, the last of them marked. -/
def storedBlocks (bytes : ByteArray) : Nat → Nat → ByteArray
  | 0, _ => .empty
  | fuel + 1, i =>
      let block := bytes.extract i (i + longestBlock)
      let isLast := bytes.size ≤ i + longestBlock
      let head : ByteArray := ⟨#[if isLast then 1 else 0]⟩
      let stored :=
        head ++ littleEndian16 block.size ++ littleEndian16 (65535 - block.size) ++ block
      if isLast then stored else stored ++ storedBlocks bytes fuel (i + longestBlock)

/-- The check sum of a zlib stream. -/
def adler (bytes : ByteArray) : Nat :=
  let (a, b) := bytes.foldl
    (fun (s : Nat × Nat) byte =>
      let a := (s.1 + byte.toNat) % 65521
      (a, (s.2 + a) % 65521))
    (1, 0)
  b * 65536 + a

def zlibStored (bytes : ByteArray) : ByteArray :=
  let header : ByteArray := ⟨#[0x78, 0x01]⟩
  header ++ storedBlocks bytes (bytes.size + 1) 0 ++ bigEndian (adler bytes)

def pushPixel (bytes : ByteArray) (p : Rgba) : ByteArray :=
  (((bytes.push p.red).push p.green).push p.blue).push p.alpha

/-- The rows, each after a byte that names its filter. -/
def scanLines (r : Raster) : ByteArray :=
  (Plane.rowOrder r.width r.height).foldl
    (fun bytes y => (r.pixels.rowList y).foldl pushPixel (bytes.push 0))
    .empty

def headerData (width height : Nat) : ByteArray :=
  bigEndian width ++ bigEndian height ++ ⟨#[8, 6, 0, 0, 0]⟩

def encode (r : Raster) : ByteArray :=
  signature ++ Chunk.bytes ⟨"IHDR", headerData r.width r.height⟩ ++
    Chunk.bytes ⟨"IDAT", zlibStored (scanLines r)⟩ ++ Chunk.bytes ⟨"IEND", .empty⟩

end VisibleDifference.Png
