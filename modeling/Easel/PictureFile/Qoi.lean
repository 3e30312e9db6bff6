import Easel.PictureFile.Reading

/-!
# Quite OK images

Pixels are written as differences from the pixel before or as places in a table
of 64 colours. Every colour that is written out goes to the place that follows
from its channels. A file may have three channels, and then all of it is opaque.
-/

namespace Easel.PictureFile.Qoi

/-- What is known while pixels are read. -/
structure Memory where
  /-- The pixel before. -/
  last : Rgba
  /-- How many times the pixel before is still to be repeated. -/
  repeats : Nat := 0
  table : Array Rgba

/-- The memory in front of the first pixel. A file is `solid` if it has three
channels. -/
def Memory.start (solid : Bool) : Memory where
  last := ⟨0, 0, 0, 255⟩
  table := Array.replicate 64 ⟨0, 0, 0, if solid then 255 else 0⟩

/-- The place of a colour. -/
def place (c : Rgba) : Nat :=
  (c.r.toNat * 3 + c.g.toNat * 5 + c.b.toNat * 7 + c.a.toNat * 11) % 64

/-- The memory after a colour that is written out. -/
def Memory.write (m : Memory) (c : Rgba) : Memory :=
  { m with last := c, table := m.table.setIfInBounds (place c) c }

/-- The colour with something added to its channels. -/
def moved (c : Rgba) (r g b : UInt8) : Rgba :=
  { c with r := c.r + r, g := c.g + g, b := c.b + b }

/-- Takes what makes the next pixel. -/
def next (solid : Bool) (m : Memory) : Reading Memory := do
  if m.repeats ≠ 0 then return { m with repeats := m.repeats - 1 }
  let tag ← byte
  let low := tag % 64
  if tag < 64 then return { m with last := m.table.getD tag.toNat m.last }
  else if tag < 128 then
    -- two bits for each channel, from two less to one more
    return m.write (moved m.last (low / 16 - 2) (low / 4 % 4 - 2) (low % 4 - 2))
  else if tag < 192 then
    let more ← byte
    -- red and blue are given by how much more they differ than green does
    let green := low - 32
    return m.write (moved m.last (green - 8 + more / 16) green (green - 8 + more % 16))
  else if tag < 254 then return { m with repeats := low.toNat }
  else if tag = 254 then
    return m.write { m.last with r := ← byte, g := ← byte, b := ← byte }
  else if solid then return m.write m.last
  else return m.write { r := ← byte, g := ← byte, b := ← byte, a := ← byte }

/-- Takes `n` pixels. -/
def pixels (solid : Bool) : Nat → Memory → Array Rgba → Reading (Array Rgba)
  | 0, _, done, file => some (done, file)
  | n + 1, m, done, file =>
    match next solid m file with
    | some (m, file) => pixels solid n m (done.push m.last) file
    | none => none

/-- The bytes behind the last pixel. -/
def closing : List UInt8 :=
  [0, 0, 0, 0, 0, 0, 0, 1]

/-- Takes a picture. -/
def read : Reading Picture := do
  if textOf (← bytes 4) ≠ "qoif" then failure
  let width ← highFirst 4
  let height ← highFirst 4
  let channels ← byte
  let space ← byte
  if (channels ≠ 3 ∧ channels ≠ 4) ∨ 1 < space ∨ width * height = 0 then failure
  checkSize width height channels.toNat
  let solid := channels = 3
  let done ← pixels solid (width * height) (.start solid) #[]
  if (← bytes 8) ≠ closing then failure
  picture width height done

end Easel.PictureFile.Qoi
