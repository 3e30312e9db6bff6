import Easel.PictureFile.Reading

/-!
# Headers of bitmaps

A header says how large a bitmap is and how its pixels are written. Colours of
sixteen or thirty-two bits may be cut into channels by masks, which are written
among or behind the fields of the header. Pixels of up to eight bits are places in
a palette, which follows the header.
-/

namespace Easel.PictureFile.Bitmap

/-- The bits of a pixel that hold one channel. -/
structure Mask where
  /-- The number of bits below it. -/
  shift : Nat
  /-- The number of its bits. -/
  length : Nat

/-- The mask with the set bits of a number, which have to be next to each other and
among the lowest `depth`. Of more than eight bits only the highest eight count. -/
def Mask.ofNumber? (depth n : Nat) : Option Mask :=
  let shift := ((List.range 32).takeWhile fun i => ¬ n.testBit i).length
  let length := ((List.range' shift 32).takeWhile fun i => n.testBit i).length
  if n = 0 then some ⟨0, 0⟩
  else if n = (Nat.pow 2 length - 1) * Nat.pow 2 shift ∧ shift + length ≤ depth then
    some ⟨shift + (length - 8), min length 8⟩
  else none

/-- Eight bits for a number of `length` bits. -/
def widen (length n : Nat) : UInt8 :=
  let largest := Nat.pow 2 length - 1
  UInt8.ofNat ((510 * (n % Nat.pow 2 length) + largest) / (2 * largest))

/-- The channel of a pixel. -/
def Mask.channel (m : Mask) (pixel : Nat) : UInt8 :=
  widen m.length (pixel / Nat.pow 2 m.shift)

/-- The masks of the channels. That of alpha may be empty. -/
structure Masks where
  r : Mask
  g : Mask
  b : Mask
  a : Mask

/-- The colour of a pixel. Without a mask of alpha it is opaque. -/
def Masks.colour (m : Masks) (pixel : Nat) : Rgba where
  r := m.r.channel pixel
  g := m.g.channel pixel
  b := m.b.channel pixel
  a := if m.a.length = 0 then 255 else m.a.channel pixel

/-- How pixels are written. -/
inductive Packing where
  /-- One after another. -/
  | none
  /-- As runs. -/
  | runs
  /-- One after another, cut into channels by masks. -/
  | masks (masks : Masks)

/-- What a bitmap says of its pixels. -/
structure Header where
  width : Nat
  height : Nat
  /-- The bits of a pixel. -/
  depth : Nat
  packing : Packing := .none
  /-- The top row comes first. -/
  fromTop : Bool := false
  /-- The number of bytes of a colour in the palette. -/
  colourSize : Nat := 4
  /-- The number of colours in the palette; zero for as many as there can be. -/
  colours : Nat := 0

/-- The largest width and height. -/
def sideLimit : Nat := 65535

/-- A number of 32 bits as one that can be negative. -/
def signed (n : Nat) : Int :=
  if n < 2147483648 then n else n - 4294967296

/-- Takes the short kind of header. -/
def shortHeader : Reading Header := do
  let width ← lowFirst 2
  let height ← lowFirst 2
  let planes ← lowFirst 2
  let depth ← lowFirst 2
  if planes = 1 ∧ depth ∈ [1, 4, 8, 24] then return { width, height, depth, colourSize := 3 }
  else failure

/-- Takes a mask for pixels of `depth` bits. -/
def mask (depth : Nat) : Reading Mask := do
  Mask.ofNumber? depth (← lowFirst 4)

/-- Takes the masks for pixels of `depth` bits. Only a header of 56 bytes or more
has a mask of alpha, and no other mask may be empty. -/
def masks (length depth : Nat) : Reading Masks := do
  let r ← mask depth
  let g ← mask depth
  let b ← mask depth
  let a ← if 56 ≤ length then mask depth else pure ⟨0, 0⟩
  if r.length = 0 ∨ g.length = 0 ∨ b.length = 0 then failure
  return { r, g, b, a }

/-- Takes the long kind of header, of which `length` bytes belong together. -/
def longHeader (length : Nat) : Reading Header := do
  let width := signed (← lowFirst 4)
  let height := signed (← lowFirst 4)
  let planes ← lowFirst 2
  let depth ← lowFirst 2
  let kind ← lowFirst 4
  let _ ← bytes 12
  let colours ← lowFirst 4
  let _ ← bytes 4
  let fromTop : Bool := height < 0
  let packing ←
    match kind, depth with
    | 1, 8 | 2, 4 => if fromTop then failure else pure Packing.runs
    | 3, 16 | 3, 32 => Packing.masks <$> masks length depth
    | 0, _ => if depth ∈ [1, 2, 4, 8, 16, 24, 32] then pure Packing.none else failure
    | _, _ => failure
  if 0 ≤ width ∧ width ≤ sideLimit ∧ height ≤ sideLimit ∧ planes = 1 then
    return {
      width := width.toNat
      height := height.natAbs
      depth
      packing
      fromTop
      colours }
  else failure

/-- The pixels are places in a palette. -/
def Header.Indexed (h : Header) : Prop :=
  h.depth ≤ 8

instance (h : Header) : Decidable h.Indexed :=
  inferInstanceAs (Decidable (_ ≤ _))

/-- A colour whose channels are written in the order blue, green, red. -/
def colourOf : List UInt8 → Rgba
  | b :: g :: r :: _ => ⟨r, g, b, 255⟩
  | _ => ⟨0, 0, 0, 255⟩

/-- Takes the colours of the palette. -/
def palette (h : Header) : Reading (Array Rgba) := do
  let most := Nat.pow 2 h.depth
  if most < h.colours then failure
  repeated (colourOf <$> bytes h.colourSize) (if h.colours = 0 then most else h.colours) #[]

/-- Takes a header and the palette behind it, which is empty if there is none. A
bitmap without pixels is refused. -/
def header : Reading (Header × Array Rgba) := do
  let file ← get
  let length ← lowFirst 4
  let h ←
    if length = 12 then shortHeader
    else if length ∈ [40, 52, 56, 108, 124] then longHeader length
    else failure
  if h.width = 0 ∨ h.height = 0 then failure
  -- masks may stand behind the header, where nobody else looks for them
  set (file.drop length)
  return (h, ← if h.Indexed then palette h else pure #[])

end Easel.PictureFile.Bitmap
