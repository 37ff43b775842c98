/-!
# Chunks

A file is a signature and a list of chunks, each with a length, a name of four letters, data and a
check sum over name and data. Numbers are stored with the high byte first.
-/

namespace VisibleDifference.Png

structure Chunk where
  name : String
  data : ByteArray

def signature : ByteArray := ⟨#[137, 80, 78, 71, 13, 10, 26, 10]⟩

/-- One step of polynomial division for each of `n` bits. -/
def divideBits : Nat → UInt32 → UInt32
  | 0, r => r
  | n + 1, r => divideBits n (if r &&& 1 = 1 then (r >>> 1) ^^^ 0xedb88320 else r >>> 1)

def checkSum (bytes : ByteArray) : UInt32 :=
  bytes.foldl (fun r b => divideBits 8 (r ^^^ b.toUInt32)) 0xffffffff ^^^ 0xffffffff

/-- The byte at position `i`, zero past the end. -/
def byteAt (bytes : ByteArray) (i : Nat) : UInt8 := if h : i < bytes.size then bytes[i] else 0

def bigEndian (n : Nat) : ByteArray :=
  ⟨#[.ofNat (n >>> 24), .ofNat (n >>> 16), .ofNat (n >>> 8), .ofNat n]⟩

/-- The number in the `n` bytes from `i` on. -/
def bigEndianAt (bytes : ByteArray) (i n : Nat) : Nat :=
  (bytes.extract i (i + n)).foldl (fun m b => 256 * m + b.toNat) 0

def Chunk.bytes (c : Chunk) : ByteArray :=
  let body := c.name.toUTF8 ++ c.data
  bigEndian c.data.size ++ body ++ bigEndian (checkSum body).toNat

def nameOf (bytes : ByteArray) : String :=
  String.ofList (bytes.data.toList.map fun b => Char.ofNat b.toNat)

/-- The chunks from position `i` on, up to the one that ends the file. -/
def chunksFrom (bytes : ByteArray) : Nat → Nat → Option (List Chunk)
  | 0, _ => none
  | fuel + 1, i =>
      if bytes.size < i + 12 then none
      else
        let length := bigEndianAt bytes i 4
        let finish := i + 8 + length
        if bytes.size < finish + 4 then none
        else
          let body := bytes.extract (i + 4) finish
          if (checkSum body).toNat ≠ bigEndianAt bytes finish 4 then none
          else
            let chunk : Chunk := ⟨nameOf (body.extract 0 4), body.extract 4 body.size⟩
            if chunk.name = "IEND" then some [chunk]
            else (chunksFrom bytes fuel (finish + 4)).map (chunk :: ·)

def chunks (bytes : ByteArray) : Option (List Chunk) :=
  if bytes.extract 0 8 == signature then chunksFrom bytes bytes.size 8 else none

end VisibleDifference.Png
