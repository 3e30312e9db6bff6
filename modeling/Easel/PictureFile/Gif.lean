import Easel.Packing.Lzw
import Easel.PictureFile.Reading

/-!
# Graphics interchange format

A file has a screen and any number of pictures that are shown on it, each of which
covers a part of the screen. The first one is read; what it does not cover is
transparent. Pixels are places in a table of colours, which the picture has for
itself or shares with the others. Its rows may be written in four passes, so that a
rough picture is there early.
-/

namespace Easel.PictureFile.Gif

/-- A table of colours. -/
abbrev Table := Array Rgba

/-- Takes a colour. -/
def colour : Reading Rgba := do
  return { r := ← byte, g := ← byte, b := ← byte, a := 255 }

/-- Takes the table that flags announce. -/
def table? (flags : Nat) : Reading (Option Table) := do
  if flags.testBit 7 then some <$> repeated colour (Nat.pow 2 (flags % 8 + 1)) #[]
  else return none

/-- What stands in front of the pixels of a picture. -/
structure Frame where
  left : Nat
  top : Nat
  width : Nat
  height : Nat
  /-- The rows are written in four passes. -/
  interlaced : Bool
  table : Table

/-- The bytes of blocks, each after its length, up to an empty block or to the end of
the file. -/
def blocks : Nat → List UInt8 → List UInt8
  | 0, _ => []
  | fuel + 1, file =>
    match file with
    | [] => []
    | n :: file =>
      if n = 0 then []
      else
        let (block, file) := file.splitAt n.toNat
        block ++ blocks fuel file

/-- Passes over blocks, of which there are at most `fuel`. -/
def skipBlocks : Nat → Reading Unit
  | 0 => failure
  | fuel + 1 => do
    let n ← byte
    if n = 0 then return ()
    let _ ← bytes n.toNat
    skipBlocks fuel

/-- Takes what stands in front of the pixels of a picture. -/
def frame (shared : Option Table) : Reading Frame := do
  let left ← lowFirst 2
  let top ← lowFirst 2
  let width ← lowFirst 2
  let height ← lowFirst 2
  let flags ← lowFirst 1
  let some table := (← table? flags) <|> shared | failure
  return { left, top, width, height, interlaced := flags.testBit 6, table }

/-- What may be said of the pictures that come next. -/
structure Control where
  /-- The place in the table that stands for transparent pixels. -/
  transparent : Option Nat := none

/-- Takes an extension that says how the next picture is shown. -/
def control : Reading Control := do
  if (← lowFirst 1) ≠ 4 then failure
  let flags ← lowFirst 1
  let _ ← bytes 2
  let place ← lowFirst 1
  if (← lowFirst 1) ≠ 0 then failure
  return { transparent := if flags.testBit 0 then some place else none }

/-- Takes extensions up to the first picture, and what they say of it. -/
def controls : Nat → Control → Reading Control
  | 0, _ => failure
  | fuel + 1, c => do
    match (← byte).toNat with
    | 44 => return c
    | 33 =>
      match (← byte).toNat with
      | 249 => controls fuel (← control)
      | 1 | 254 | 255 =>
        skipBlocks fuel
        controls fuel c
      | _ => failure
    | _ => failure

/-- The rows of a picture in the order in which they are written. -/
def Frame.rows (f : Frame) : List Nat :=
  let pass (start step : Nat) : List Nat :=
    List.range' start ((f.height + step - 1 - start) / step) step
  if f.interlaced then pass 0 8 ++ pass 4 8 ++ pass 2 4 ++ pass 1 2 else List.range f.height

/-- Takes the pixels of a picture as places in its table, row by row with the top row
first. A picture without pixels is refused, unless it is interlaced and has no rows. -/
def places (f : Frame) : Reading (Array UInt8) := do
  let width := (← byte).toNat
  if 11 < width then failure
  if f.width * f.height = 0 ∧ ¬ (f.interlaced ∧ f.height = 0) then failure
  let file ← get
  let data := blocks file.length file
  let wanted := f.width * f.height
  let found ← Packing.Lzw.unpack { width, highFirst := false, early := false } wanted data
  if found.length < wanted then failure
  let found := found.toArray
  return f.rows.zipIdx.foldl (fun done (row, i) =>
    (List.range f.width).foldl (fun done column =>
      done.setIfInBounds (row * f.width + column) (found.getD (i * f.width + column) 0)) done)
    (Array.replicate wanted 0)

/-- Takes a picture. -/
def read : Reading Picture := do
  let _ ← bytes 6
  let width ← lowFirst 2
  let height ← lowFirst 2
  let flags ← lowFirst 1
  let _ ← bytes 2
  let shared ← table? flags
  let c ← controls (← get).length {}
  let f ← frame shared
  checkSize width height 4
  let places ← places f
  picture width height (Array.ofFn fun i : Fin (width * height) =>
    let column := i % width
    let row := i / width
    if f.left ≤ column ∧ column < f.left + f.width ∧ f.top ≤ row ∧ row < f.top + f.height then
      let place := (places.getD ((row - f.top) * f.width + (column - f.left)) 0).toNat
      let colour := f.table.getD place Rgba.transparent
      if c.transparent = some place then { colour with a := 0 } else colour
    else Rgba.transparent)

end Easel.PictureFile.Gif
