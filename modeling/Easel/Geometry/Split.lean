import Easel.Error

/-!
# Building, cutting and moving rectangles

Each of these can fail, because the corners that result may enclose nothing or
leave the range of coordinates. A cut yields `Halves` or `Quarters`; their fields
are named for the place of the piece, and `toList` gives the order in which the
pieces are numbered.
-/

namespace Easel

/-- The two pieces of a cut along a line. -/
structure Halves (α : Type) where
  /-- The left or lower piece. -/
  low : α
  /-- The right or upper piece. -/
  high : α
deriving DecidableEq, Repr

/-- The pieces in the order of their numbers. -/
def Halves.toList {α : Type} (h : Halves α) : List α :=
  [h.low, h.high]

/-- The four pieces of a cut at a point. -/
structure Quarters (α : Type) where
  bottomLeft : α
  bottomRight : α
  topRight : α
  topLeft : α
deriving DecidableEq, Repr

/-- The pieces in the order of their numbers: counterclockwise from the lower
left. -/
def Quarters.toList {α : Type} (q : Quarters α) : List α :=
  [q.bottomLeft, q.bottomRight, q.topRight, q.topLeft]

namespace Rect

/-- The rectangle with the given corners. Corners in the wrong order are
reported before corners that enclose nothing. -/
def ofCorners (bottomLeft topRight : Point) : Except Error Rect :=
  if topRight.x < bottomLeft.x ∨ topRight.y < bottomLeft.y then
    .error (.invertedCorners bottomLeft topRight)
  else if h : bottomLeft.x < topRight.x ∧ bottomLeft.y < topRight.y then
    .ok { bottomLeft, topRight, x_lt := h.1, y_lt := h.2 }
  else
    .error (.noArea bottomLeft topRight)

/-- The rectangle of a whole canvas whose size is given. -/
def ofSize (size : Point) : Except Error Rect :=
  ofCorners .origin size

/-- The pieces to the left and to the right of the vertical line at `x`. -/
def splitVertical (r : Rect) (x : Coordinate) : Except Error (Halves Rect) := do
  let low ← ofCorners r.bottomLeft (r.topRight.withX x)
  let high ← ofCorners (r.bottomLeft.withX x) r.topRight
  return { low, high }

/-- The pieces below and above the horizontal line at `y`. -/
def splitHorizontal (r : Rect) (y : Coordinate) : Except Error (Halves Rect) := do
  let low ← ofCorners r.bottomLeft (r.topRight.withY y)
  let high ← ofCorners (r.bottomLeft.withY y) r.topRight
  return { low, high }

/-- The four pieces around the point `p`. -/
def quadrants (r : Rect) (p : Point) : Except Error (Quarters Rect) := do
  -- a point on an edge is told of by the first piece that encloses nothing
  let bottomLeft ← ofCorners r.bottomLeft p
  let bottomRight ← ofCorners (p.atHeightOf r.bottomLeft) (r.topRight.atHeightOf p)
  let topRight ← ofCorners p r.topRight
  let topLeft ← ofCorners (r.bottomLeft.atHeightOf p) (p.atHeightOf r.topRight)
  return { bottomLeft, bottomRight, topRight, topLeft }

/-- The corner `p` moved by the vector from `a` to `b`. -/
def moveCorner (p a b : Point) : Except Error Point :=
  match p.offset? a b with
  | some q => .ok q
  | none => .error (.cornerStuck p a b)

/-- The rectangle moved by the vector from `a` to `b`. -/
def offset (r : Rect) (a b : Point) : Except Error Rect := do
  let bottomLeft ← moveCorner r.bottomLeft a b
  let topRight ← moveCorner r.topRight a b
  ofCorners bottomLeft topRight

end Rect

end Easel
