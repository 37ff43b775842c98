/-!
# Inflating

Decompression of a zlib stream: blocks of stored bytes, or of symbols in canonical Huffman codes
that stand for bytes and for copies of what has been written before. Bits are read from the low end
of each byte. Every symbol takes a bit, so the number of bits left bounds the number of steps.
-/

namespace VisibleDifference.Png

/-- Reading from given bytes, at a position counted in bits. -/
abbrev Scan := ReaderT ByteArray (StateT Nat Option)

namespace Scan

def byteAt (i : Nat) : Scan UInt8 := do
  let bytes ← read
  if h : i < bytes.size then return bytes[i] else failure

def bit : Scan Nat := do
  let position ← get
  let b ← byteAt (position / 8)
  set (position + 1)
  return (b.toNat >>> (position % 8)) % 2

/-- A number of `n` bits, the low bit first. -/
def number : Nat → Scan Nat
  | 0 => return 0
  | n + 1 => do
      let low ← bit
      return low + 2 * (← number n)

def toByteBoundary : Scan Unit := modify fun position => (position + 7) / 8 * 8

end Scan

/-- A canonical code: how many symbols have each length, and the symbols by length. -/
structure Code where
  counts : List Nat
  symbols : Array Nat

def longestCode : Nat := 15

def Code.ofLengths (lengths : List Nat) : Code where
  counts := (List.range longestCode).map fun l => lengths.count (l + 1)
  symbols :=
    ((List.range longestCode).flatMap fun l =>
      (lengths.zipIdx.filter fun p => p.1 = l + 1).map (·.2)).toArray

/-- Reads one more bit for each length. The codes of a length begin at `first`, its symbols at
`index`. -/
def Code.walk (symbols : Array Nat) : List Nat → Nat → Nat → Nat → Scan Nat
  | [], _, _, _ => failure
  | count :: counts, code, first, index => do
      let code := 2 * code + (← Scan.bit)
      if code < first + count then
        match symbols[index + code - first]? with
        | some s => return s
        | none => failure
      else walk symbols counts code (2 * (first + count)) (index + count)

def Code.symbol (c : Code) : Scan Nat := Code.walk c.symbols c.counts 0 0 0

/-- The least value and the number of extra bits of each length symbol, from 257 on. -/
def lengthRanges : List (Nat × Nat) :=
  [(3, 0), (4, 0), (5, 0), (6, 0), (7, 0), (8, 0), (9, 0), (10, 0), (11, 1), (13, 1), (15, 1),
   (17, 1), (19, 2), (23, 2), (27, 2), (31, 2), (35, 3), (43, 3), (51, 3), (59, 3), (67, 4),
   (83, 4), (99, 4), (115, 4), (131, 5), (163, 5), (195, 5), (227, 5), (258, 0)]

/-- The same for each distance symbol. -/
def distanceRanges : List (Nat × Nat) :=
  [(1, 0), (2, 0), (3, 0), (4, 0), (5, 1), (7, 1), (9, 2), (13, 2), (17, 3), (25, 3), (33, 4),
   (49, 4), (65, 5), (97, 5), (129, 6), (193, 6), (257, 7), (385, 7), (513, 8), (769, 8), (1025, 9),
   (1537, 9), (2049, 10), (3073, 10), (4097, 11), (6145, 11), (8193, 12), (12289, 12), (16385, 13),
   (24577, 13)]

def inRange (ranges : List (Nat × Nat)) (symbol : Nat) : Scan Nat :=
  match ranges[symbol]? with
  | some (least, extra) => do return least + (← Scan.number extra)
  | none => failure

/-- Appends `n` bytes, each a copy of the byte `distance` places before it. -/
def copyBack (distance : Nat) : Nat → ByteArray → Scan ByteArray
  | 0, out => return out
  | n + 1, out =>
      if h : out.size - distance < out.size then
        copyBack distance n (out.push out[out.size - distance])
      else failure

/-- The symbols of a block up to its end. -/
def symbols (literals distances : Code) : Nat → ByteArray → Scan ByteArray
  | 0, _ => failure
  | fuel + 1, out => do
      let s ← literals.symbol
      if s < 256 then symbols literals distances fuel (out.push (.ofNat s))
      else if s = 256 then return out
      else
        let length ← inRange lengthRanges (s - 257)
        let distance ← inRange distanceRanges (← distances.symbol)
        if out.size < distance then failure
        symbols literals distances fuel (← copyBack distance length out)

def storedBytes : Nat → ByteArray → Scan ByteArray
  | 0, out => return out
  | n + 1, out => do storedBytes n (out.push (.ofNat (← Scan.number 8)))

def fixedLiterals : Code :=
  .ofLengths (List.replicate 144 8 ++ List.replicate 112 9 ++ List.replicate 24 7 ++
    List.replicate 8 8)

def fixedDistances : Code := .ofLengths (List.replicate 30 5)

/-- The order in which the lengths of the code for code lengths are stored. -/
def lengthOrder : List Nat := [16, 17, 18, 0, 8, 7, 9, 6, 10, 5, 11, 4, 12, 3, 13, 2, 14, 1, 15]

/-- Code lengths, latest first, until there are `total` of them. -/
def codeLengths (code : Code) (total : Nat) : Nat → List Nat → Scan (List Nat)
  | 0, _ => failure
  | fuel + 1, found => do
      if total ≤ found.length then return found
      let s ← code.symbol
      if s < 16 then codeLengths code total fuel (s :: found)
      else
        let (length, least, extra) ← match s, found with
          | 16, l :: _ => pure (l, 3, 2)
          | 17, _ => pure (0, 3, 3)
          | 18, _ => pure (0, 11, 7)
          | _, _ => failure
        let n := least + (← Scan.number extra)
        codeLengths code total fuel (List.replicate n length ++ found)

/-- The codes at the start of a block that brings its own. -/
def blockCodes : Scan (Code × Code) := do
  let literals := (← Scan.number 5) + 257
  let distances := (← Scan.number 5) + 1
  let given := (← Scan.number 4) + 4
  let lengths ← (lengthOrder.take given).mapM fun s => do return (s, ← Scan.number 3)
  let code := Code.ofLengths ((List.range 19).map fun s => (lengths.lookup s).getD 0)
  let total := literals + distances
  let found := (← codeLengths code total (total + 1) []).reverse
  if found.length ≠ total then failure
  return (.ofLengths (found.take literals), .ofLengths (found.drop literals))

def blocks : Nat → ByteArray → Scan ByteArray
  | 0, _ => failure
  | fuel + 1, out => do
      let last ← Scan.bit
      let out ← match ← Scan.number 2 with
        | 0 => do
            Scan.toByteBoundary
            let length ← Scan.number 16
            let complement ← Scan.number 16
            if length + complement ≠ 65535 then failure
            storedBytes length out
        | 1 => symbols fixedLiterals fixedDistances (fuel + 1) out
        | 2 => do
            let (literals, distances) ← blockCodes
            symbols literals distances (fuel + 1) out
        | _ => failure
      if last = 1 then return out else blocks fuel out

/-- A zlib header without a preset dictionary, then the blocks. -/
def stream (fuel : Nat) : Scan ByteArray := do
  let method ← Scan.number 8
  let flags ← Scan.number 8
  if method % 16 ≠ 8 ∨ (256 * method + flags) % 31 ≠ 0 ∨ flags / 32 % 2 = 1 then failure
  blocks fuel .empty

def inflate (bytes : ByteArray) : Option ByteArray :=
  ((stream (8 * bytes.size + 1)).run bytes |>.run 0).map (·.1)

end VisibleDifference.Png
