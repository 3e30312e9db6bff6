import Easel.Block

/-!
# Routing: which leaf goes to which piece of a cut

When a block of several leaves is cut, a leaf that lies on one side of the cut
goes to that side as it is, and a leaf across the cut is cut as well. A leaf that
only touches the cut lies on one side. The leaves of a piece keep the order of
the leaves they come from.
-/

namespace Easel

/-- The direction along which a line cut measures its place. -/
inductive Axis where
  /-- A vertical line at some `x`. -/
  | x
  /-- A horizontal line at some `y`. -/
  | y
deriving DecidableEq, Repr

/-- The least coordinate of a rectangle along an axis. -/
def Rect.low (r : Rect) : Axis → Nat
  | .x => r.bottomLeft.x
  | .y => r.bottomLeft.y

/-- The largest coordinate of a rectangle along an axis. -/
def Rect.high (r : Rect) : Axis → Nat
  | .x => r.topRight.x
  | .y => r.topRight.y

/-- The pieces of a rectangle below and above a place on an axis. -/
def Rect.split (r : Rect) (axis : Axis) (position : Coordinate) : Except Error (Halves Rect) :=
  match axis with
  | .x => r.splitVertical position
  | .y => r.splitHorizontal position

/-- Where something lies with respect to a cut. -/
inductive Side where
  | below
  | across
  | above
deriving DecidableEq, Repr

/-- The side of a rectangle with respect to a place on an axis. -/
def Rect.side (r : Rect) (axis : Axis) (position : Nat) : Side :=
  if r.high axis ≤ position then .below
  else if position ≤ r.low axis then .above
  else .across

/-- Nothing for either piece. -/
def Halves.nil {α : Type} : Halves (List α) where
  low := []
  high := []

/-- Nothing for any of the pieces. -/
def Quarters.nil {α : Type} : Quarters (List α) where
  bottomLeft := []
  bottomRight := []
  topRight := []
  topLeft := []

namespace Leaf

/-- The leaf with another rectangle. An anchor stays what it is. -/
def withRect (leaf : Leaf) (rect : Rect) : Leaf :=
  { leaf with rect }

/-- What a leaf adds to the pieces of a cut along a line. -/
def halves (leaf : Leaf) (axis : Axis) (position : Coordinate) :
    Except Error (Halves (List Leaf)) :=
  match leaf.rect.side axis position with
  | .below => .ok { Halves.nil with low := [leaf] }
  | .above => .ok { Halves.nil with high := [leaf] }
  | .across => do
    let pieces ← leaf.rect.split axis position
    return { low := [leaf.withRect pieces.low], high := [leaf.withRect pieces.high] }

/-- What a leaf adds to the pieces of a cut at a point. -/
def quarters (leaf : Leaf) (p : Point) : Except Error (Quarters (List Leaf)) :=
  match leaf.rect.side .x p.x, leaf.rect.side .y p.y with
  | .below, .below => .ok { Quarters.nil with bottomLeft := [leaf] }
  | .above, .below => .ok { Quarters.nil with bottomRight := [leaf] }
  | .above, .above => .ok { Quarters.nil with topRight := [leaf] }
  | .below, .above => .ok { Quarters.nil with topLeft := [leaf] }
  | .across, .across => do
    let pieces ← leaf.rect.quadrants p
    return {
      bottomLeft := [leaf.withRect pieces.bottomLeft]
      bottomRight := [leaf.withRect pieces.bottomRight]
      topRight := [leaf.withRect pieces.topRight]
      topLeft := [leaf.withRect pieces.topLeft] }
  | .across, .below => do
    let pieces ← leaf.rect.splitVertical ⟨p.x, p.x_lt⟩
    return { Quarters.nil with
      bottomLeft := [leaf.withRect pieces.low], bottomRight := [leaf.withRect pieces.high] }
  | .across, .above => do
    let pieces ← leaf.rect.splitVertical ⟨p.x, p.x_lt⟩
    return { Quarters.nil with
      topLeft := [leaf.withRect pieces.low], topRight := [leaf.withRect pieces.high] }
  | .below, .across => do
    let pieces ← leaf.rect.splitHorizontal ⟨p.y, p.y_lt⟩
    return { Quarters.nil with
      bottomLeft := [leaf.withRect pieces.low], topLeft := [leaf.withRect pieces.high] }
  | .above, .across => do
    let pieces ← leaf.rect.splitHorizontal ⟨p.y, p.y_lt⟩
    return { Quarters.nil with
      bottomRight := [leaf.withRect pieces.low], topRight := [leaf.withRect pieces.high] }

end Leaf

/-- The leaves of the pieces of a cut along a line. -/
def routeLine (axis : Axis) (position : Coordinate) :
    List Leaf → Except Error (Halves (List Leaf))
  | [] => .ok Halves.nil
  | leaf :: leaves => do
    let here ← leaf.halves axis position
    let there ← routeLine axis position leaves
    return { low := here.low ++ there.low, high := here.high ++ there.high }

/-- The leaves of the pieces of a cut at a point. -/
def routePoint (p : Point) : List Leaf → Except Error (Quarters (List Leaf))
  | [] => .ok Quarters.nil
  | leaf :: leaves => do
    let here ← leaf.quarters p
    let there ← routePoint p leaves
    return {
      bottomLeft := here.bottomLeft ++ there.bottomLeft
      bottomRight := here.bottomRight ++ there.bottomRight
      topRight := here.topRight ++ there.topRight
      topLeft := here.topLeft ++ there.topLeft }

namespace Block

/-- The pieces of a block that is cut along a line. -/
def cutLine (block : Block) (axis : Axis) (position : Coordinate) :
    Except Error (Halves Block) := do
  let pieces ← block.rect.split axis position
  match block with
  | simple leaf =>
    return { low := simple (leaf.withRect pieces.low), high := simple (leaf.withRect pieces.high) }
  | complex _ children =>
    let leaves ← routeLine axis position children
    return { low := complex pieces.low leaves.low, high := complex pieces.high leaves.high }

/-- The pieces of a block that is cut at a point. -/
def cutPoint (block : Block) (p : Point) : Except Error (Quarters Block) := do
  let pieces ← block.rect.quadrants p
  match block with
  | simple leaf =>
    return {
      bottomLeft := simple (leaf.withRect pieces.bottomLeft)
      bottomRight := simple (leaf.withRect pieces.bottomRight)
      topRight := simple (leaf.withRect pieces.topRight)
      topLeft := simple (leaf.withRect pieces.topLeft) }
  | complex _ children =>
    let leaves ← routePoint p children
    return {
      bottomLeft := complex pieces.bottomLeft leaves.bottomLeft
      bottomRight := complex pieces.bottomRight leaves.bottomRight
      topRight := complex pieces.topRight leaves.topRight
      topLeft := complex pieces.topLeft leaves.topLeft }

end Block

end Easel
