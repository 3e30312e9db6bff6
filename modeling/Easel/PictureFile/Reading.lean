import Easel.Picture

/-!
# Reading bytes from the front

`Reading α` takes bytes off the front of a file and makes an `α` of them, or
refuses the file. What stands behind the last byte that is needed does not
matter. A picture whose pixels would take too many bytes is refused before any of
them is read.
-/

namespace Easel.PictureFile

/-- Work that takes bytes off the front and may refuse them. -/
abbrev Reading := StateT (List UInt8) Option

/-- Takes one byte. -/
def byte : Reading UInt8
  | [] => none
  | b :: rest => some (b, rest)

/-- Takes `n` bytes. -/
def bytes (n : Nat) : Reading (List UInt8) := fun file =>
  let (front, rest) := file.splitAt n
  if front.length = n then some (front, rest) else none

/-- Takes a number of `n` bytes, the highest one first. -/
def highFirst (n : Nat) : Reading Nat := do
  return (← bytes n).foldl (fun m b => m * 256 + b.toNat) 0

/-- Takes a number of `n` bytes, the lowest one first. -/
def lowFirst (n : Nat) : Reading Nat := do
  return (← bytes n).foldr (fun b m => m * 256 + b.toNat) 0

/-- Takes the bytes up to the end of a line, and the end as well. -/
def line : Reading (List UInt8)
  | [] => none
  | file => some (file.takeWhile (· ≠ 10), (file.dropWhile (· ≠ 10)).drop 1)

/-- Does the work `n` times and puts the results behind those that are there. -/
def repeated {α : Type} (work : Reading α) : Nat → Array α → Reading (Array α)
  | 0, done, file => some (done, file)
  | n + 1, done, file =>
    match work file with
    | some (a, file) => repeated work n (done.push a) file
    | none => none

/-- The largest number of bytes that pixels may take. -/
def pixelLimit : Nat := 536870912

/-- Refuses a size whose pixels, of `pixelSize` bytes each, would take too many. -/
def checkSize (width height pixelSize : Nat) : Reading Unit :=
  if width * height * pixelSize ≤ pixelLimit then return () else failure

/-- The picture with the given size and pixels. -/
def picture (width height : Nat) (pixels : Array Rgba) : Reading Picture := do
  let size ← Point.ofNat? width height
  (Picture.ofPixels size pixels).toOption

/-- Takes the pixels of a picture, row by row with the top row first. -/
def picturePixels (width height : Nat) (pixel : Reading Rgba) : Reading Picture := do
  picture width height (← repeated pixel (width * height) #[])

/-- The text of bytes, each of which is a character. -/
def textOf (bytes : List UInt8) : String :=
  String.ofList (bytes.map fun b => Char.ofNat b.toNat)

/-- The byte is a blank in the header of a file. -/
def IsBlank (b : UInt8) : Prop :=
  (9 ≤ b ∧ b ≤ 13) ∨ b = 32

instance : DecidablePred IsBlank := fun b =>
  inferInstanceAs (Decidable ((9 ≤ b ∧ b ≤ 13) ∨ b = 32))

/-- The number of 8 bits that stands for a number of 16 bits. -/
def narrow (n : Nat) : UInt8 :=
  UInt8.ofNat ((n + 128) / 257)

end Easel.PictureFile
