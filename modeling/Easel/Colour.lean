import Easel.Geometry.Split

/-!
# Colours and fills

A leaf of the canvas is filled either with one colour or with a window of the
source image. A window is given by its *anchor*, the place in the source image
that shows at the lower-left corner of the leaf; when content moves, the anchor
moves with it.
-/

namespace Easel

/-- A colour with straight alpha. -/
structure Rgba where
  r : UInt8
  g : UInt8
  b : UInt8
  a : UInt8
deriving DecidableEq, Repr

namespace Rgba

/-- Opaque white. -/
def white : Rgba := ⟨255, 255, 255, 255⟩

/-- The colour of a cell that no leaf covers. -/
def transparent : Rgba := ⟨0, 0, 0, 0⟩

end Rgba

/-- What a leaf shows. -/
inductive Fill where
  /-- One colour. -/
  | solid (colour : Rgba)
  /-- The source image from `anchor`, which counts upwards from the bottom. -/
  | image (anchor : Point)
deriving DecidableEq, Repr

/-- The fill of a leaf that moves by the vector from `a` to `b`. -/
def Fill.rebased (fill : Fill) (a b : Point) : Except Error Fill :=
  match fill with
  | solid colour => .ok (solid colour)
  | image anchor =>
    match anchor.offset? a b with
    | some moved => .ok (image moved)
    | none => .error (.anchorStuck anchor a b)

end Easel
