import Easel.Colour

/-!
# Leaves and blocks

A leaf is a rectangle with one fill. A block is either a leaf or a rectangle
with a list of leaves; a later leaf lies over an earlier one. That the leaves of
a block tile its rectangle is not part of the type: it is what the instructions
keep, and a block that is put on a canvas by hand need not have it.
-/

namespace Easel

/-- A rectangle with one fill. -/
structure Leaf where
  rect : Rect
  fill : Fill
deriving DecidableEq, Repr

namespace Leaf

/-- The leaf with the given corners. -/
def ofCorners (bottomLeft topRight : Point) (fill : Fill) : Except Error Leaf := do
  let rect ← Rect.ofCorners bottomLeft topRight
  return { rect, fill }

/-- The leaf moved by the vector from `a` to `b`, with what it shows. -/
def offset (leaf : Leaf) (a b : Point) : Except Error Leaf := do
  let rect ← leaf.rect.offset a b
  let fill ← leaf.fill.rebased a b
  return { rect, fill }

end Leaf

/-- A named part of a canvas. -/
inductive Block where
  /-- One leaf. -/
  | simple (leaf : Leaf)
  /-- Several leaves. -/
  | complex (rect : Rect) (children : List Leaf)
deriving DecidableEq, Repr

namespace Block

/-- The rectangle of the block. -/
def rect : Block → Rect
  | simple leaf => leaf.rect
  | complex rect _ => rect

/-- The leaves of the block, the lowest first. -/
def leaves : Block → List Leaf
  | simple leaf => [leaf]
  | complex _ children => children

/-- Width and height. -/
def size (block : Block) : Point :=
  block.rect.size

/-- The number of cells of the rectangle. -/
def area (block : Block) : Nat :=
  block.rect.area

/-- The block with the given corners and leaves. -/
def ofCorners (bottomLeft topRight : Point) (children : List Leaf) : Except Error Block := do
  let rect ← Rect.ofCorners bottomLeft topRight
  return complex rect children

/-- The content of the block in the rectangle `target` of the same size. -/
def relocated (block : Block) (target : Rect) : Except Error Block :=
  let a := block.rect.bottomLeft
  let b := target.bottomLeft
  match block with
  -- one leaf takes the target as it is, so only its anchor can be stuck
  | simple leaf => do
    let fill ← leaf.fill.rebased a b
    return simple { rect := target, fill }
  | complex _ children => do
    let moved ← children.mapM (·.offset a b)
    return complex target moved

end Block

end Easel
