import Easel.Colour

/-!
# Pictures

A picture is a grid of pixels, row by row with the top row first. Pixels are
addressed by column and row from the top left, the other way up from canvas
coordinates.
-/

namespace Easel

/-- A grid of pixels, the top row first. -/
@[ext] structure Picture where
  width : Nat
  height : Nat
  pixels : Array Rgba
  width_lt : width < 4294967296
  height_lt : height < 4294967296
  size_pixels : pixels.size = width * height

namespace Picture

instance : DecidableEq Picture := fun _ _ =>
  decidable_of_iff _ Picture.ext_iff.symm

/-- The pixel in the given column and row, if there is one. -/
def pixel? (p : Picture) (column row : Nat) : Option Rgba :=
  if column < p.width ∧ row < p.height then p.pixels[row * p.width + column]? else none

/-- The source image of the given size. -/
def ofPixels (size : Point) (pixels : Array Rgba) : Except Error Picture :=
  if h : pixels.size = size.x * size.y then
    .ok
      { width := size.x
        height := size.y
        pixels
        width_lt := size.x_lt
        height_lt := size.y_lt
        size_pixels := h }
  else
    .error (.sourceLength pixels.size size.x size.y)

end Picture

end Easel
