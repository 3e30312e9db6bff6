import Easel.PictureFile.Bitmap.Runs

/-!
# Bitmaps

A bitmap names the place of its pixels, which are written row by row and mostly
from the bottom up. Unless the pixels are packed, a row is filled up to a multiple
of four bytes. A bitmap is opaque if it has no mask of alpha, but in an icon the
fourth byte of a pixel of 32 bits is alpha.
-/

namespace Easel.PictureFile.Bitmap

/-- The colour of the pixel in a column of a row that is not packed. -/
def colourAt (h : Header) (alpha : Bool) (palette : Array Rgba) (row : Array UInt8)
    (column : Nat) : Rgba :=
  let byte (i : Nat) : UInt8 := row.getD i 0
  let first := column * (h.depth / 8)
  let number := (List.range (h.depth / 8)).foldr (fun i n => n * 256 + (byte (first + i)).toNat) 0
  match h.packing, h.depth with
  | .masks masks, _ => masks.colour number
  | _, 32 => ⟨byte (first + 2), byte (first + 1), byte first, if alpha then byte (first + 3) else 255⟩
  | _, 24 => ⟨byte (first + 2), byte (first + 1), byte first, 255⟩
  | _, 16 => ⟨widen 5 (number / 1024), widen 5 (number / 32), widen 5 number, 255⟩
  | _, depth =>
    let first := column * depth
    -- the highest bits of a byte belong to the leftmost pixel
    let place := (byte (first / 8)).toNat / Nat.pow 2 (8 - depth - first % 8) % Nat.pow 2 depth
    palette.getD place ⟨0, 0, 0, 255⟩

/-- Takes a row that is not packed. -/
def row (h : Header) (alpha : Bool) (palette : Array Rgba) : Reading (Array Rgba) := do
  let data := (← bytes ((h.width * h.depth + 31) / 32 * 4)).toArray
  return Array.ofFn fun column : Fin h.width => colourAt h alpha palette data column

/-- Takes the pixels, and puts the top row first. -/
def pixels (h : Header) (alpha : Bool) (palette : Array Rgba) : Reading (Array Rgba) := do
  checkSize h.width h.height (match alpha, h.packing with
    | true, _ => 4
    | _, .masks masks => if masks.a.length = 0 then 3 else 4
    | _, _ => 3)
  match h.packing with
  | .runs =>
    let done ← runs h palette
    return Array.ofFn fun i : Fin (h.width * h.height) =>
      done.getD ((h.height - 1 - i / h.width) * h.width + i % h.width) ⟨0, 0, 0, 255⟩
  | _ =>
    let rows ← repeated (row h alpha palette) h.height #[]
    return (if h.fromTop then rows else rows.reverse).flatten

/-- Takes a bitmap. -/
def read : Reading Picture := do
  let file ← get
  if textOf (← bytes 2) ≠ "BM" then failure
  let _ ← bytes 8
  -- this place is counted from the beginning of the file
  let start ← lowFirst 4
  let (h, palette) ← header
  set (file.drop start)
  picture h.width h.height (← pixels h false palette)

end Easel.PictureFile.Bitmap
