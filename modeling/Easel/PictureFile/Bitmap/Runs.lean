import Easel.PictureFile.Bitmap.Header

/-!
# Packed pixels of bitmaps

Packed pixels are places in a palette, in runs of one byte that is repeated and in
stretches that are written out. Either fills the row from the pixel that has been
reached; other marks end the row, end the picture or move on and leave pixels out.
Pixels that are left out are black. Only a run of bytes that hold one place each may
be longer than what is left of the row.
-/

namespace Easel.PictureFile.Bitmap

/-- What comes next among packed pixels. -/
inductive Step where
  /-- The row is at its end. -/
  | endRow
  /-- The picture is at its end. -/
  | endPicture
  /-- Goes on by so many columns and rows. -/
  | move (columns rows : Nat)
  /-- The next pixels by their places in the palette, of which those that do not fit
  into the row may be `dropped`. -/
  | places (dropped : Bool) (places : List Nat)

/-- The first `n` places of bytes, each of which holds one of eight bits or two of
four. -/
def placesOf (depth n : Nat) (data : List UInt8) : List Nat :=
  (data.flatMap fun b =>
    if depth = 4 then [b.toNat / 16, b.toNat % 16] else [b.toNat]).take n

/-- Takes what comes next. -/
def step (depth : Nat) : Reading Step := do
  let n := (← byte).toNat
  if n ≠ 0 then
    return .places (depth = 8) (placesOf depth n (List.replicate n (← byte)))
  match (← byte).toNat with
  | 0 => return .endRow
  | 1 => return .endPicture
  | 2 => return .move (← byte).toNat (← byte).toNat
  | n =>
    let length := if depth = 4 then (n + 1) / 2 else n
    -- a stretch is filled up to a whole number of two bytes
    return .places false (placesOf depth n (← bytes (length + length % 2)))

/-- A picture with the place that has been reached in it. -/
structure Progress where
  pixels : Array Rgba
  row : Nat := 0
  column : Nat := 0

/-- Sets the next pixels of a row. -/
def Progress.fill? (p : Progress) (h : Header) (palette : Array Rgba) (dropped : Bool)
    (places : List Nat) : Option Progress :=
  let start := p.row * h.width
  let room := h.width - p.column
  if ¬ dropped ∧ room < places.length then none
  else
    let colours := (places.take room).map fun i => palette.getD i ⟨0, 0, 0, 255⟩
    some { p with
      pixels := colours.zipIdx.foldl (fun pixels (c, i) =>
        pixels.setIfInBounds (start + p.column + i) c) p.pixels
      column := p.column + places.length }

/-- Goes on by columns and rows. The new place has to lie inside the picture or at
the end of a row of it. -/
def Progress.move? (p : Progress) (h : Header) (columns rows : Nat) : Option Progress :=
  if columns = 0 ∧ rows = 0 then some p
  else if p.column + columns ≤ h.width ∧ p.row + rows < h.height then
    some { p with column := p.column + columns, row := p.row + rows }
  else none

/-- Takes packed pixels up to their end, in at most `fuel` steps. -/
def runsFrom (h : Header) (palette : Array Rgba) : Nat → Progress → Reading (Array Rgba)
  | 0, _ => failure
  | fuel + 1, p => do
    if h.height ≤ p.row then return p.pixels
    match ← step h.depth with
    | .endRow => runsFrom h palette fuel { p with row := p.row + 1, column := 0 }
    | .endPicture => return p.pixels
    | .move columns rows => runsFrom h palette fuel (← p.move? h columns rows)
    | .places dropped places => runsFrom h palette fuel (← p.fill? h palette dropped places)

/-- Takes the rows of a packed picture as one, the bottom row first. -/
def runs (h : Header) (palette : Array Rgba) : Reading (Array Rgba) := do
  let fuel := (← get).length + 1
  runsFrom h palette fuel { pixels := Array.replicate (h.width * h.height) ⟨0, 0, 0, 255⟩ }

end Easel.PictureFile.Bitmap
