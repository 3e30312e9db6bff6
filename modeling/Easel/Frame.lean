import Easel.Exchange.Layout
import Easel.Picture

/-!
# Frames

A frame is a picture with at least one pixel. It is filled with one colour,
taken from pixels, from bytes (four for each pixel) or from a JSON array of
colours, which says nothing about the size.
-/

namespace Easel

/-- A picture that has pixels. -/
structure Frame extends Picture where
  width_pos : 0 < width
  height_pos : 0 < height
deriving DecidableEq

namespace Frame

/-- The pixels of a frame of the given size take fewer than `2 ^ 63` bytes. -/
def Fits (size : Point) : Prop :=
  size.x * size.y * 4 < 9223372036854775808

instance (size : Point) : Decidable (Fits size) :=
  inferInstanceAs (Decidable (_ < _))

/-- The frame of the given size with one colour. A frame that is too large to be
held stops the work. -/
def filled (size : Point) (colour : Rgba) : Except Failure Frame :=
  if h : size.Positive then
    if Fits size then
      .ok
        { width := size.x
          height := size.y
          pixels := Array.replicate (size.x * size.y) colour
          width_lt := size.x_lt
          height_lt := size.y_lt
          size_pixels := Array.size_replicate
          width_pos := h.x_pos
          height_pos := h.y_pos }
    else
      .error (.overflow .capacity)
  else
    .error (.refused .emptyFrame)

/-- The frame of the given size with the given pixels. -/
def ofPixels (size : Point) (pixels : Array Rgba) : Except Error Frame :=
  if h : size.Positive ∧ pixels.size = size.x * size.y then
    .ok
      { width := size.x
        height := size.y
        pixels
        width_lt := size.x_lt
        height_lt := size.y_lt
        size_pixels := h.2
        width_pos := h.1.x_pos
        height_pos := h.1.y_pos }
  else
    .error (.frameLength pixels.size size.x size.y)

/-- The frame of a picture. A picture without pixels is refused. -/
def ofPicture (p : Picture) : Except Error Frame :=
  if h : 0 < p.width ∧ 0 < p.height then
    .ok { p with width_pos := h.1, height_pos := h.2 }
  else
    .error (.frameLength p.pixels.size p.width p.height)

/-- The colours of a run of bytes, four for each. Bytes at the end that make no
colour are left out. -/
def coloursOfBytes : List UInt8 → List Rgba
  | r :: g :: b :: a :: rest => { r, g, b, a } :: coloursOfBytes rest
  | _ => []

/-- The four bytes of a colour. -/
def bytesOfColour (c : Rgba) : List UInt8 :=
  [c.r, c.g, c.b, c.a]

/-- The frame of the given size with the given bytes. -/
def ofBytes (size : Point) (bytes : List UInt8) : Except Error Frame :=
  if bytes.length % 4 = 0 then ofPixels size (coloursOfBytes bytes).toArray
  else .error (.brokenPixel bytes.length)

/-- The bytes of all pixels. -/
def toBytes (f : Frame) : List UInt8 :=
  f.pixels.toList.flatMap bytesOfColour

/-- The frame of the given size with the pixels of a text. -/
def ofText (size : Point) (text : String) : Except Error Frame :=
  match (Json.read? text).bind Picture.pixelsOfJson? with
  | some pixels => ofPixels size pixels
  | none => .error .pixelsText

end Frame

end Easel
