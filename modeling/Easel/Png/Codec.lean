import Easel.Frame
import Easel.Png.Checksum
import Easel.Packing.Inflate

/-!
# Pictures as PNG files

`Png.encode` writes a frame with eight bits for each of its four channels, in
rows without a filter and packed as stored blocks. `Png.decode` reads files with
eight bits for each channel that are not interlaced: grey or coloured, with alpha
or without, or through a palette. Colours that a file does not give alpha for are
opaque, unless its transparency chunk says otherwise.
-/

namespace Easel.Png

/-- The bytes that every file begins with. -/
def signature : List UInt8 :=
  [0x89, 0x50, 0x4E, 0x47, 0x0D, 0x0A, 0x1A, 0x0A]

/-- A number of 32 bits, the highest byte first. -/
def bytesOfNumber (n : UInt32) : ByteArray :=
  ⟨#[(n >>> 24).toUInt8, (n >>> 16).toUInt8, (n >>> 8).toUInt8, n.toUInt8]⟩

/-- The number of four bytes from `start` on. -/
def numberAt? (bytes : ByteArray) (start : Nat) : Option Nat := do
  let a ← bytes[start]?
  let b ← bytes[start + 1]?
  let c ← bytes[start + 2]?
  let d ← bytes[start + 3]?
  return ((a.toNat * 256 + b.toNat) * 256 + c.toNat) * 256 + d.toNat

/-- A chunk with its length, its kind and its check. -/
def chunk (kind : String) (content : ByteArray) : ByteArray :=
  let body := kind.toUTF8 ++ content
  bytesOfNumber (UInt32.ofNat content.size) ++ body ++ bytesOfNumber (crc32 body)

/-- The largest number of bytes in a stored block. -/
def storedLimit : Nat := 65535

/-- Bytes as stored blocks, of which `fuel` at most come before the last. -/
def storedBlocks (bytes : ByteArray) : Nat → Nat → ByteArray → ByteArray
  | fuel, start, out =>
    let length := min storedLimit (bytes.size - start)
    let last := bytes.size ≤ start + storedLimit
    -- the length is followed by its complement
    let head : ByteArray :=
      ⟨#[if last then 1 else 0, UInt8.ofNat (length % 256), UInt8.ofNat (length / 256),
        UInt8.ofNat (255 - length % 256), UInt8.ofNat (255 - length / 256)]⟩
    let out := out ++ head ++ bytes.extract start (start + length)
    match fuel with
    | 0 => out
    | fuel + 1 => if last then out else storedBlocks bytes fuel (start + length) out

/-- Bytes packed without being made smaller. -/
def store (bytes : ByteArray) : ByteArray :=
  ⟨#[0x78, 0x01]⟩ ++ storedBlocks bytes (bytes.size / storedLimit) 0 .empty
    ++ bytesOfNumber (adler32 bytes)

/-- The rows of a frame, each after the number of its filter. -/
def rows (f : Frame) : ByteArray :=
  (List.range f.height).foldl (fun out row =>
    (f.pixels.extract (row * f.width) ((row + 1) * f.width)).foldl
      (fun out c => (((out.push c.r).push c.g).push c.b).push c.a) (out.push 0)) .empty

/-- The file of a frame. -/
def encode (f : Frame) : ByteArray :=
  ⟨signature.toArray⟩
    ++ chunk "IHDR" (bytesOfNumber (UInt32.ofNat f.width) ++ bytesOfNumber (UInt32.ofNat f.height)
      ++ ⟨#[8, 6, 0, 0, 0]⟩)
    ++ chunk "IDAT" (store (rows f))
    ++ chunk "IEND" .empty

/-- The chunks of a file, as far as they can be read. -/
structure Chunks where
  header : ByteArray := .empty
  palette : ByteArray := .empty
  transparency : ByteArray := .empty
  data : ByteArray := .empty

/-- Reads chunks up to the last one. A chunk takes twelve bytes at least. -/
def readChunks (bytes : ByteArray) : Nat → Nat → Chunks → Option Chunks
  | 0, _, _ => none
  | fuel + 1, start, chunks => do
    let length ← numberAt? bytes start
    let kind ← String.fromUTF8? (bytes.extract (start + 4) (start + 8))
    let content := bytes.extract (start + 8) (start + 8 + length)
    let check ← numberAt? bytes (start + 8 + length)
    if crc32 (bytes.extract (start + 4) (start + 8 + length)) ≠ UInt32.ofNat check then none
    else
      let next := start + 12 + length
      match kind with
      | "IHDR" => readChunks bytes fuel next { chunks with header := content }
      | "PLTE" => readChunks bytes fuel next { chunks with palette := content }
      | "tRNS" => readChunks bytes fuel next { chunks with transparency := content }
      | "IDAT" => readChunks bytes fuel next { chunks with data := chunks.data ++ content }
      | "IEND" => some chunks
      | _ => readChunks bytes fuel next chunks

/-- The one of the three neighbours that is nearest to their linear guess. -/
def paeth (left up corner : Nat) : Nat :=
  let guess : Int := left + up - corner
  let a := (guess - left).natAbs
  let b := (guess - up).natAbs
  let c := (guess - corner).natAbs
  if a ≤ b ∧ a ≤ c then left else if b ≤ c then up else corner

/-- What a filter adds to a byte with the given neighbours. -/
def filterGuess (filter left up corner : Nat) : Option Nat :=
  match filter with
  | 0 => some 0
  | 1 => some left
  | 2 => some up
  | 3 => some ((left + up) / 2)
  | 4 => some (paeth left up corner)
  | _ => none

/-- Undoes the filter of a row. `distance` is the number of bytes of a pixel. -/
def unfilterRow (filter distance : Nat) (above raw : ByteArray) : Option ByteArray :=
  let byte (b : ByteArray) (i : Nat) : Nat := (b[i]?.getD 0).toNat
  (List.range raw.size).foldlM (fun row i => do
    let left := if distance ≤ i then byte row (i - distance) else 0
    let corner := if distance ≤ i then byte above (i - distance) else 0
    let guess ← filterGuess filter left (byte above i) corner
    return row.push (UInt8.ofNat (byte raw i + guess))) .empty

/-- Undoes the filters of `n` rows of `length` bytes. -/
def unfilter (data : ByteArray) (distance length : Nat) :
    Nat → Nat → ByteArray → Array ByteArray → Option (Array ByteArray)
  | 0, _, _, done => some done
  | n + 1, start, above, done => do
    let filter ← data[start]?
    let raw := data.extract (start + 1) (start + 1 + length)
    if raw.size ≠ length then none
    else
      let row ← unfilterRow filter.toNat distance above raw
      unfilter data distance length n (start + 1 + length) row (done.push row)

/-- The number of bytes of a pixel of a kind of colours. -/
def channels? : UInt8 → Option Nat
  | 0 => some 1
  | 2 => some 3
  | 3 => some 1
  | 4 => some 2
  | 6 => some 4
  | _ => none

/-- The colour of the pixel in a column of a row. -/
def colourAt? (chunks : Chunks) (kind : UInt8) (row : ByteArray) (column : Nat) :
    Option Rgba := do
  let alphaUnless (same : Bool) : UInt8 := if same then 0 else 255
  match kind with
  | 0 =>
    let v ← row[column]?
    return ⟨v, v, v, alphaUnless (chunks.transparency[1]? = some v)⟩
  | 2 =>
    let r ← row[3 * column]?
    let g ← row[3 * column + 1]?
    let b ← row[3 * column + 2]?
    let t := chunks.transparency
    return ⟨r, g, b, alphaUnless (t[1]? = some r && t[3]? = some g && t[5]? = some b)⟩
  | 3 =>
    let i := (← row[column]?).toNat
    let r ← chunks.palette[3 * i]?
    let g ← chunks.palette[3 * i + 1]?
    let b ← chunks.palette[3 * i + 2]?
    return ⟨r, g, b, chunks.transparency[i]?.getD 255⟩
  | 4 =>
    let v ← row[2 * column]?
    return ⟨v, v, v, ← row[2 * column + 1]?⟩
  | _ =>
    return ⟨← row[4 * column]?, ← row[4 * column + 1]?, ← row[4 * column + 2]?,
      ← row[4 * column + 3]?⟩

/-- The frame of a file. -/
def decode? (bytes : ByteArray) : Option Frame := do
  if (bytes.extract 0 8).toList ≠ signature then none
  else
    let chunks ← readChunks bytes (bytes.size / 12 + 1) 8 {}
    let width ← numberAt? chunks.header 0
    let height ← numberAt? chunks.header 4
    let size ← Point.ofNat? width height
    let kind ← chunks.header[9]?
    let distance ← channels? kind
    -- eight bits for each channel, and no interlacing
    if chunks.header[8]? ≠ some 8 ∨ chunks.header[12]? ≠ some 0 then none
    else
      -- two bytes in front say how the data are packed, which is always deflation
      let data ← Packing.inflate (chunks.data.extract 2 chunks.data.size)
      let rows ← unfilter data distance (width * distance) height 0 .empty #[]
      let pixels ← (rows.toList.flatMap fun row =>
        (List.range width).map fun column => (row, column)).mapM fun (row, column) =>
          colourAt? chunks kind row column
      (Frame.ofPixels size pixels.toArray).toOption

end Easel.Png
