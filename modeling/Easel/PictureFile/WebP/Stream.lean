import Easel.Colour
import Easel.PictureFile.WebP.Code

/-!
# Streams of pixels

A stream holds pixels row by row. A pixel is written out, is taken from a small
table of colours that have been there, or is copied together with others from a
place before. Green, red, blue, alpha and the distances of copies have a code each.
A picture may have several groups of codes; a smaller picture says then which group
holds for which part.
-/

namespace Easel.PictureFile.WebP

open Easel.Packing

/-- The codes of a part. -/
structure Codes where
  /-- Green, lengths of copies and places in the table of colours. -/
  green : Code
  red : Code
  blue : Code
  alpha : Code
  distance : Code
deriving Inhabited

/-- Reads the codes of a part of a picture with `colours` places in the table. -/
def Codes.ofBits (colours : Nat) : BitReading Codes := do
  return {
    green := ← Code.ofBits (280 + colours)
    red := ← Code.ofBits 256
    blue := ← Code.ofBits 256
    alpha := ← Code.ofBits 256
    distance := ← Code.ofBits 40 }

/-- Reads `n` groups of codes and puts them behind those that are there. -/
def groupsFrom (colours : Nat) : Nat → Array Codes → BitReading (Array Codes)
  | 0, done => return done
  | n + 1, done => do
    let codes ← Codes.ofBits colours
    groupsFrom colours n (done.push codes)

/-- The groups of codes of a picture. -/
structure Groups where
  groups : Array Codes
  /-- A part is a square with a side of `side` pixels; zero says that there is only
  one part. -/
  side : Nat := 0
  /-- The number of parts beside each other. -/
  across : Nat := 1
  /-- The group of each part. -/
  places : Array Nat := #[]

/-- The codes of the pixel in a column and a row. -/
def Groups.codesAt (g : Groups) (column row : Nat) : Codes :=
  let place :=
    if g.side = 0 then 0
    else g.places.getD (row / g.side * g.across + column / g.side) 0
  g.groups.getD place default

/-! ## The table of colours -/

/-- The place of a colour in a table of as many colours as `bits` bits tell apart. -/
def placeOf (bits : Nat) (c : Rgba) : Nat :=
  let n := ((c.a.toNat * 256 + c.r.toNat) * 256 + c.g.toNat) * 256 + c.b.toNat
  506832829 * n % 4294967296 / Nat.pow 2 (32 - bits)

/-- A table of colours, which is empty if it has no bits. -/
structure Colours where
  bits : Nat
  table : Array Rgba

/-- The table in the beginning. -/
def Colours.start (bits : Nat) : Colours :=
  ⟨bits, Array.replicate (if bits = 0 then 0 else Nat.pow 2 bits) Rgba.transparent⟩

/-- The table after a colour that has been there. -/
def Colours.insert (t : Colours) (c : Rgba) : Colours :=
  { t with table := t.table.setIfInBounds (placeOf t.bits c) c }

/-! ## Copies -/

/-- Reads the number that a symbol of a length or a distance stands for. -/
def extended (symbol : Nat) : BitReading Nat := do
  if symbol < 4 then return symbol + 1
  let bits := (symbol - 2) / 2
  return (2 + symbol % 2) * Nat.pow 2 bits + (← Bits.number bits) + 1

/-- The places near a pixel, the nearest first: sixteen times the number of rows up,
and eight less the number of columns to the left. -/
def nearPlaces : Array Nat :=
  #[24, 7, 23, 25, 40, 6, 39, 41, 22, 26, 38, 42, 56, 5, 55, 57, 21, 27, 54, 58, 37, 43, 72, 4,
    71, 73, 20, 28, 53, 59, 70, 74, 36, 44, 88, 69, 75, 52, 60, 3, 87, 89, 19, 29, 86, 90, 35,
    45, 68, 76, 85, 91, 51, 61, 104, 2, 103, 105, 18, 30, 102, 106, 34, 46, 84, 92, 67, 77, 101,
    107, 50, 62, 120, 1, 119, 121, 83, 93, 17, 31, 100, 108, 66, 78, 118, 122, 33, 47, 117, 123,
    49, 63, 99, 109, 82, 94, 0, 116, 124, 65, 79, 16, 32, 98, 110, 48, 115, 125, 81, 95, 64,
    114, 126, 97, 111, 80, 113, 127, 96, 112]

/-- The number of pixels that a distance goes back in a picture of the given width.
Small distances name a place near the pixel. -/
def pixelsBack (width distance : Nat) : Nat :=
  match nearPlaces[distance - 1]? with
  | some place => max 1 (place / 16 * width + 8 - place % 16)
  | none => distance - nearPlaces.size

/-- The pixels with `n` more, copied from `back` pixels before. -/
def copied (back : Nat) : Nat → Array Rgba → Array Rgba
  | 0, done => done
  | n + 1, done => copied back n (done.push (done.getD (done.size - back) Rgba.transparent))

/-! ## Pixels -/

/-- Reads pixels until there are `wanted` of them, in at most `fuel` steps. -/
def pixelsFrom (g : Groups) (width wanted : Nat) :
    Nat → Colours → Array Rgba → BitReading (Array Rgba)
  | 0, _, done => return done
  | fuel + 1, table, done => do
    if wanted ≤ done.size then return done
    let codes := g.codesAt (done.size % width) (done.size / width)
    let s ← codes.green.symbol
    if s < 256 then
      let r ← codes.red.symbol
      let b ← codes.blue.symbol
      let a ← codes.alpha.symbol
      let c : Rgba := ⟨UInt8.ofNat r, UInt8.ofNat s, UInt8.ofNat b, UInt8.ofNat a⟩
      pixelsFrom g width wanted fuel (table.insert c) (done.push c)
    else if s < 280 then
      let length ← extended (s - 256)
      let back := pixelsBack width (← extended (← codes.distance.symbol))
      if done.size < back ∨ wanted < done.size + length then failure
      let more := copied back length done
      -- copies of the pixel before do not touch the table, which has had that colour
      let table :=
        if back = 1 then table
        else (more.extract done.size more.size).foldl Colours.insert table
      pixelsFrom g width wanted fuel table more
    else
      let some c := table.table[s - 280]? | failure
      pixelsFrom g width wanted fuel table (done.push c)

/-- Reads how many bits tell the colours of the table apart; zero is for no table. -/
def tableBits : BitReading Nat := do
  if (← Bits.bit) = 0 then return 0
  let bits ← Bits.number 4
  if 1 ≤ bits ∧ bits ≤ 11 then return bits else failure

/-- Reads the pixels of a stream. `groups` reads the groups of codes of a picture with
so many places in the table of colours. -/
def streamOf (groups : Nat → BitReading Groups) (width height : Nat) :
    BitReading (Array Rgba) := do
  let table := Colours.start (← tableBits)
  let g ← groups table.table.size
  pixelsFrom g width (width * height) (width * height) table #[]

/-- Reads the pixels of a stream that has one group of codes. -/
def simpleStream (width height : Nat) : BitReading (Array Rgba) :=
  streamOf (fun colours => do return { groups := ← groupsFrom colours 1 #[] }) width height

/-- The number of squares with the given side that a length touches. -/
def squares (length side : Nat) : Nat := (length + side - 1) / side

/-- Reads the groups of codes of a whole picture. -/
def pictureGroups (width height colours : Nat) : BitReading Groups := do
  if (← Bits.bit) = 0 then return { groups := ← groupsFrom colours 1 #[] }
  let side := Nat.pow 2 ((← Bits.number 3) + 2)
  let across := squares width side
  let parts ← simpleStream across (squares height side)
  let places := parts.map fun c => c.r.toNat * 256 + c.g.toNat
  let groups ← groupsFrom colours (places.foldl max 0 + 1) #[]
  return { groups, side, across, places }

/-- Reads the pixels of a whole picture. -/
def stream (width height : Nat) : BitReading (Array Rgba) :=
  streamOf (pictureGroups width height) width height

end Easel.PictureFile.WebP
