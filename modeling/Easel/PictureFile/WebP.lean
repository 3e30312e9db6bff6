import Easel.PictureFile.Reading
import Easel.PictureFile.WebP.Transform

/-!
# WebP pictures

A file is a row of named chunks. A chunk with a picture comes first, or an extended
header comes first and says what else there is. Pictures are read that are written
without loss. If a picture moves, it is shown as it is in the beginning.
-/

namespace Easel.PictureFile.WebP

open Easel.Packing

/-- The front of a chunk. -/
structure Chunk where
  name : String
  length : Nat

/-- The number of bytes that a chunk takes, which is filled up to an even one. -/
def Chunk.room (c : Chunk) : Nat := c.length + c.length % 2

/-- Takes the front of a chunk. -/
def chunk : Reading Chunk := do
  return { name := textOf (← bytes 4), length := ← lowFirst 4 }

/-- What is known of a picture in front of its pixels. -/
structure Header where
  width : Nat
  height : Nat
  /-- Pixels may be transparent. -/
  alpha : Bool
deriving DecidableEq

/-- Reads the header of a picture. -/
def Header.ofBits : BitReading Header := do
  if (← Bits.number 8) ≠ 47 then failure
  let width := (← Bits.number 14) + 1
  let height := (← Bits.number 14) + 1
  let alpha ← Bits.bit
  let version ← Bits.number 3
  if version ≠ 0 then failure
  return { width, height, alpha := alpha = 1 }

/-- The pixels in the bytes of a chunk, which have to fill the given size. -/
def pixelsOf? (width height : Nat) (content : List UInt8) : Option (Array Rgba) := do
  let (h, bits) ← Header.ofBits { bytes := ⟨content.toArray⟩ }
  if h.width ≠ width ∨ h.height ≠ height then none
  let (pixels, _) ← pixels width height bits
  return pixels

/-- The picture with the given pixels, which are opaque if it has no alpha. -/
def Header.picture (h : Header) (pixels : Array Rgba) : Reading Picture :=
  PictureFile.picture h.width h.height
    (if h.alpha then pixels else pixels.map fun c => { c with a := 255 })

/-- Refuses a picture with too many pixels. -/
def Header.check (h : Header) : Reading Unit :=
  checkSize h.width h.height (if h.alpha then 4 else 3)

/-- The picture of a file that holds nothing else. -/
def single (content : List UInt8) : Reading Picture := do
  let (h, _) ← Header.ofBits { bytes := ⟨content.toArray⟩ }
  -- the largest side counts as none at all
  if h.width = 16384 ∨ h.height = 16384 then failure
  h.check
  h.picture (← pixelsOf? h.width h.height content)

/-! ## Files with an extended header -/

/-- What an extended header says. -/
structure Extended where
  header : Header
  /-- The picture moves. -/
  animated : Bool
  /-- The names of the chunks that have to be there. -/
  needed : List String

/-- Takes an extended header. -/
def extendedHeader : Reading Extended := do
  let flags ← lowFirst 1
  let _ ← bytes 3
  let width := (← lowFirst 3) + 1
  let height := (← lowFirst 3) + 1
  return {
    header := { width, height, alpha := flags.testBit 4 }
    animated := flags.testBit 1
    needed := (if flags.testBit 3 then ["EXIF"] else []) ++ if flags.testBit 2 then ["XMP "] else [] }

/-- The chunks that begin before the end of the room, of which `fuel` are left. -/
def chunksFrom : (fuel room : Nat) → List UInt8 → List (Chunk × List UInt8)
  | 0, _, _ => []
  | fuel + 1, room, file =>
    if room = 0 then []
    else
      match chunk file with
      | none => []
      | some (c, file) =>
        (c, file.take c.length) :: chunksFrom fuel (room - (8 + c.room)) (file.drop c.room)

/-- The first chunk of a name. -/
def first? (chunks : List (Chunk × List UInt8)) (name : String) : Option (Chunk × List UInt8) :=
  chunks.find? fun (c, _) => c.name = name

/-- The colour of a pixel that is laid over a transparent one. The inverse of its alpha
has 24 bits and is rounded down. -/
def overNothing (c : Rgba) : Rgba :=
  let channel (v : UInt8) : UInt8 :=
    UInt8.ofNat (v.toNat * c.a.toNat * (16777216 / c.a.toNat) / 16777216)
  if c.a = 0 then Rgba.transparent else { c with r := channel c.r, g := channel c.g, b := channel c.b }

/-- Takes the first part of a picture that moves, from a chunk of `length` bytes, and
lays it on the empty picture of the given size. -/
def firstPart (h : Header) (length : Nat) : Reading (Array Rgba) := do
  let left := 2 * (← lowFirst 3)
  let top := 2 * (← lowFirst 3)
  let width := (← lowFirst 3) + 1
  let height := (← lowFirst 3) + 1
  let _ ← bytes 3
  let flags ← lowFirst 1
  let c ← chunk
  if 16384 < width ∨ 16384 < height ∨ h.width < left + width ∨ h.height < top + height
      ∨ length < 32 ∨ length < c.room + 24 ∨ c.name ≠ "VP8L" then failure
  let pixels ← pixelsOf? width height ((← get).take c.length)
  let pixels := if flags.testBit 1 then pixels else pixels.map overNothing
  return Array.ofFn fun i : Fin (h.width * h.height) =>
    let column := i % h.width
    let row := i / h.width
    if left ≤ column ∧ column < left + width ∧ top ≤ row ∧ row < top + height then
      pixels.getD ((row - top) * width + (column - left)) Rgba.transparent
    else Rgba.transparent

/-- The picture of the chunks behind an extended header. -/
def ofChunks (e : Extended) (chunks : List (Chunk × List UInt8)) : Reading Picture := do
  let has (name : String) : Bool := (first? chunks name).isSome
  if ¬ e.needed.all has then failure
  -- the front of every part has to be there
  if chunks.any fun (c, content) => c.name = "ANMF" ∧ content.length < 24 then failure
  e.header.check
  if e.animated then
    let (_, settings) ← first? chunks "ANIM"
    let (c, content) ← first? chunks "ANMF"
    if settings.length ≠ 6 then failure
    set content
    e.header.picture (← firstPart e.header c.length)
  else
    if has "VP8 " then failure
    let (_, content) ← first? chunks "VP8L"
    e.header.picture (← pixelsOf? e.header.width e.header.height content)

/-- Takes a picture. -/
def read : Reading Picture := do
  let file ← chunk
  if textOf (← bytes 4) ≠ "WEBP" then failure
  let first ← chunk
  let content ← get
  match first.name with
  | "VP8L" => single (content.take first.length)
  | "VP8X" =>
    let e ← extendedHeader
    let rest := content.drop first.room
    ofChunks e (chunksFrom rest.length (file.length - 12) rest)
  | _ => failure

end Easel.PictureFile.WebP
