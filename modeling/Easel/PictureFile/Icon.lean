import Easel.PictureFile.Bitmap
import Easel.Png.Codec

/-!
# Icons

An icon file holds pictures of several sizes, of which the one with the most bits
for a pixel is taken, and of those the largest. A picture is a bitmap without the
front of its file or a whole PNG file. Behind the pixels of a bitmap may stand a bit
for each of them that says which are transparent; the height of the bitmap counts
those rows as well, whether they are there or not.
-/

namespace Easel.PictureFile.Icon

/-- What the directory of an icon says of a picture. -/
structure Entry where
  width : Nat
  height : Nat
  /-- The bits of a pixel. -/
  depth : Nat
  /-- The number of bytes. -/
  length : Nat
  /-- The place of the first byte, counted from the beginning of the file. -/
  start : Nat

/-- Takes a side, where zero stands for the largest one. -/
def side : Reading Nat := do
  let n ← lowFirst 1
  return if n = 0 then 256 else n

/-- Takes an entry of the directory. -/
def entry : Reading Entry := do
  let width ← side
  let height ← side
  let _ ← bytes 2
  let planes ← lowFirst 2
  let depth ← lowFirst 2
  if 256 < planes ∨ 256 < depth then failure
  return { width, height, depth, length := ← lowFirst 4, start := ← lowFirst 4 }

/-- The second entry is to be preferred. -/
def Entry.Less (e f : Entry) : Prop :=
  e.depth < f.depth ∨ (e.depth = f.depth ∧ e.width * e.height < f.width * f.height)

instance (e f : Entry) : Decidable (e.Less f) :=
  inferInstanceAs (Decidable (_ ∨ _))

/-- The entry that is taken. Of those that nothing is to be preferred to, it is the
last one of the directory if that is among them, and otherwise the first. -/
def best? (entries : Array Entry) : Option Entry := do
  let last ← entries.back?
  return entries.pop.foldl (fun best e => if best.Less e then e else best) last

/-- A picture has the sides that its entry says. Sides over 256 count as 256. -/
def Entry.Fits (e : Entry) (width height : Nat) : Prop :=
  e.width = min width 256 ∧ e.height = min height 256

instance (e : Entry) (width height : Nat) : Decidable (e.Fits width height) :=
  inferInstanceAs (Decidable (_ ∧ _))

/-- Takes the bits that say which pixels are transparent, and makes those so. Rows
are filled up to a multiple of four bytes, and the bottom row comes first. -/
def masked (width height : Nat) (pixels : Array Rgba) : Reading (Array Rgba) := do
  let length := (width + 31) / 32 * 4
  let data := (← bytes (length * height)).toArray
  return Array.ofFn fun i : Fin (width * height) =>
    let c := pixels.getD i Rgba.transparent
    let column := i % width
    let row := height - 1 - i / width
    let byte := data.getD (row * length + column / 8) 0
    if byte.toNat.testBit (7 - column % 8) then { c with a := 0 } else c

/-- Takes the bitmap of an entry from a file of `size` bytes. -/
def bitmap (size : Nat) (e : Entry) : Reading Picture := do
  let (h, palette) ← Bitmap.header
  let h := { h with height := h.height / 2 }
  if ¬ e.Fits h.width h.height then failure
  let pixels ← Bitmap.pixels h true palette
  -- packed pixels have no alpha at all
  let pixels :=
    match h.packing with
    | .runs => pixels.map fun c => { c with a := 0 }
    | _ => pixels
  let position := size - (← get).length
  let pixels ←
    if position + (h.width + 31) / 32 * 4 * h.height ≤ e.start + e.length then
      masked h.width h.height pixels
    else if e.start + e.length = position then pure pixels
    else failure
  picture h.width h.height pixels

/-- The PNG file of an entry. Only four channels of eight bits are read. -/
def png? (e : Entry) (file : List UInt8) : Option Picture := do
  let picture := (← Png.decode? ⟨file.toArray⟩).toPicture
  if e.Fits picture.width picture.height ∧ 8 ≤ e.length
      ∧ (file.drop 24).take 2 = [8, 6] then some picture
  else none

/-- Takes an icon. -/
def read : Reading Picture := do
  let file ← get
  let _ ← bytes 4
  let count ← lowFirst 2
  let e ← best? (← repeated entry count #[])
  let content := file.drop e.start
  set content
  if Png.signature.isPrefixOf content then png? e content
  else if content.length < 8 then failure
  else bitmap file.length e

end Easel.PictureFile.Icon
