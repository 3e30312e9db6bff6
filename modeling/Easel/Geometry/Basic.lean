/-!
# Points and rectangles of a canvas

Canvas coordinates are whole numbers below `2 ^ 32`, with `y = 0` at the bottom
edge. `Point` carries that bound and `Rect` carries a positive extent on both
axes, so no operation has to check either.

A rectangle is seen through its *cells*: the cell `(x, y)` is the unit square
with lower-left corner `(x, y)`, and `Rect.Covers` says which cells lie in a
rectangle. The upper right corner is exclusive for cells, so two rectangles that
share only an edge share no cell.
-/

namespace Easel

/-- One coordinate of a place on the canvas, a number of 32 bits. -/
abbrev Coordinate := Fin 4294967296

/-- A place on the canvas, or the extent of a rectangle on both axes. -/
@[ext] structure Point where
  /-- The horizontal coordinate. -/
  x : Nat
  /-- The vertical coordinate, upwards from the bottom edge. -/
  y : Nat
  /-- Coordinates fit 32 bits. -/
  x_lt : x < 4294967296 := by omega
  /-- Coordinates fit 32 bits. -/
  y_lt : y < 4294967296 := by omega
deriving DecidableEq, Repr

namespace Point

instance : ToString Point where
  toString p := s!"[{p.x}, {p.y}]"

/-- The lower-left corner of every canvas. -/
def origin : Point := { x := 0, y := 0 }

/-- The point with the given coordinates. -/
def ofCoordinates (x y : Coordinate) : Point :=
  { x := x.val, y := y.val, x_lt := x.isLt, y_lt := y.isLt }

/-- The point moved to another place on the horizontal axis. -/
def withX (p : Point) (x : Coordinate) : Point :=
  { p with x := x.val, x_lt := x.isLt }

/-- The point moved to another place on the vertical axis. -/
def withY (p : Point) (y : Coordinate) : Point :=
  { p with y := y.val, y_lt := y.isLt }

/-- The point straight above or below `p` at the height of `q`. -/
def atHeightOf (p q : Point) : Point :=
  { x := p.x, y := q.y, x_lt := p.x_lt, y_lt := q.y_lt }

/-- The point with the given coordinates, if both are in range. -/
def ofNat? (x y : Nat) : Option Point :=
  if h : x < 4294967296 ∧ y < 4294967296 then some { x, y, x_lt := h.1, y_lt := h.2 } else none

/-- The sum on both axes, if it is in range. -/
def add? (p q : Point) : Option Point :=
  ofNat? (p.x + q.x) (p.y + q.y)

/-- The difference on both axes, or `none` if one of them would be negative. -/
def sub? (p q : Point) : Option Point :=
  if q.x ≤ p.x ∧ q.y ≤ p.y then
    have := p.x_lt
    have := p.y_lt
    some { x := p.x - q.x, y := p.y - q.y }
  else none

/-- The difference on both axes, with zero in place of a negative one. -/
def diff (p q : Point) : Point :=
  have := p.x_lt
  have := p.y_lt
  { x := p.x - q.x, y := p.y - q.y }

/-- The product of the coordinates of a point that stands for a size. -/
def area (p : Point) : Nat :=
  p.x * p.y

/-- A point that stands for a size has both width and height. -/
def Positive (p : Point) : Prop :=
  0 < p.x ∧ 0 < p.y

instance (p : Point) : Decidable p.Positive :=
  inferInstanceAs (Decidable (_ ∧ _))

theorem Positive.x_pos {p : Point} (h : p.Positive) : 0 < p.x := h.1

theorem Positive.y_pos {p : Point} (h : p.Positive) : 0 < p.y := h.2

/-- The point moved by the vector from `a` to `b`. The vector's end is added
before its start is taken away, and both steps must stay in range: a point
beyond `2 ^ 32 - 1 - b.x` is not moved, even where the result would fit. -/
def offset? (p a b : Point) : Option Point :=
  (p.add? b).bind (·.sub? a)

end Point

/-- A rectangle with positive extent on both axes. -/
@[ext] structure Rect where
  /-- The lower-left corner. -/
  bottomLeft : Point
  /-- The upper-right corner. -/
  topRight : Point
  /-- The width is positive. -/
  x_lt : bottomLeft.x < topRight.x := by omega
  /-- The height is positive. -/
  y_lt : bottomLeft.y < topRight.y := by omega
deriving DecidableEq, Repr

namespace Point

/-- The point lies in the rectangle and on none of its edges. -/
def StrictlyInside (p : Point) (r : Rect) : Prop :=
  r.bottomLeft.x < p.x ∧ p.x < r.topRight.x ∧ r.bottomLeft.y < p.y ∧ p.y < r.topRight.y

/-- The point lies in the rectangle or on one of its edges. -/
def Inside (p : Point) (r : Rect) : Prop :=
  r.bottomLeft.x ≤ p.x ∧ p.x ≤ r.topRight.x ∧ r.bottomLeft.y ≤ p.y ∧ p.y ≤ r.topRight.y

instance (p : Point) (r : Rect) : Decidable (p.StrictlyInside r) :=
  inferInstanceAs (Decidable (_ ∧ _))

instance (p : Point) (r : Rect) : Decidable (p.Inside r) :=
  inferInstanceAs (Decidable (_ ∧ _))

end Point

namespace Rect

instance : ToString Rect where
  toString r := s!"{r.bottomLeft} to {r.topRight}"

/-- The cell with lower-left corner `(x, y)` is part of the rectangle. -/
def Covers (r : Rect) (x y : Nat) : Prop :=
  r.bottomLeft.x ≤ x ∧ x < r.topRight.x ∧ r.bottomLeft.y ≤ y ∧ y < r.topRight.y

instance (r : Rect) (x y : Nat) : Decidable (r.Covers x y) :=
  inferInstanceAs (Decidable (_ ∧ _))

/-- Width and height. -/
def size (r : Rect) : Point :=
  r.topRight.diff r.bottomLeft

/-- The number of cells. -/
def area (r : Rect) : Nat :=
  r.size.area

/-- Both corners of `s` lie in `r` or on its edges. -/
def Contains (r s : Rect) : Prop :=
  s.bottomLeft.Inside r ∧ s.topRight.Inside r

instance (r s : Rect) : Decidable (r.Contains s) :=
  inferInstanceAs (Decidable (_ ∧ _))

/-- The number of cells that two rectangles share. -/
def overlapArea (r s : Rect) : Nat :=
  (min r.topRight.x s.topRight.x - max r.bottomLeft.x s.bottomLeft.x)
    * (min r.topRight.y s.topRight.y - max r.bottomLeft.y s.bottomLeft.y)

/-- The least rectangle that contains both. -/
def hull (r s : Rect) : Rect where
  bottomLeft :=
    { x := min r.bottomLeft.x s.bottomLeft.x
      y := min r.bottomLeft.y s.bottomLeft.y
      x_lt := by have := r.bottomLeft.x_lt; omega
      y_lt := by have := r.bottomLeft.y_lt; omega }
  topRight :=
    { x := max r.topRight.x s.topRight.x
      y := max r.topRight.y s.topRight.y
      x_lt := by have := r.topRight.x_lt; have := s.topRight.x_lt; omega
      y_lt := by have := r.topRight.y_lt; have := s.topRight.y_lt; omega }
  x_lt := by have := r.x_lt; show min _ _ < max _ _; omega
  y_lt := by have := r.y_lt; show min _ _ < max _ _; omega

end Rect

end Easel
