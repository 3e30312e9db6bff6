import Easel.Canvas
import Easel.Frame

/-!
# Drawing a canvas

Every leaf is first turned into a `Span`: rows and columns of the frame and what
to paint there. Rows count from the top, so the canvas is turned upside down, and
for a leaf that shows the source image the window in it is turned as well. Then a
pixel has the colour of the last span that covers it, or none if no span does.

A leaf can reach beyond the canvas, since only blocks are kept inside. Beyond
the upper edge it has no rows to be painted in and the work stops; beyond the
right edge it paints nothing at all.

`Threading` says how the work is to be divided. It has no influence on the
result, but a division among no threads is refused. The threads themselves are
taken to be there: that a pool of the wanted size cannot be set up is a matter of
the machine and is left out. A frame that is too large to be held stops the work,
after the spans have been found and before its division matters.
-/

namespace Easel

/-- How the work of drawing is divided. -/
structure Threading where
  /-- Rows are painted by several threads. -/
  parallel : Bool := false
  /-- The number of threads, if it is prescribed. -/
  threads : Option Nat := none
deriving DecidableEq, Repr

/-- What a span paints. -/
inductive Paint where
  /-- One colour. -/
  | solid (colour : Rgba)
  /-- The picture, with the pixel in `column` and `row` at the top left of the
  span. -/
  | window (picture : Picture) (column row : Nat)

/-- A leaf in rows and columns of a frame; ends are exclusive. -/
structure Span where
  left : Nat
  right : Nat
  top : Nat
  bottom : Nat
  paint : Paint

namespace Span

/-- The span has cells in the row. -/
def MeetsRow (s : Span) (row : Nat) : Prop :=
  s.top ≤ row ∧ row < s.bottom

/-- The span has cells in the column. -/
def MeetsColumn (s : Span) (column : Nat) : Prop :=
  s.left ≤ column ∧ column < s.right

instance (s : Span) (row : Nat) : Decidable (s.MeetsRow row) :=
  inferInstanceAs (Decidable (_ ∧ _))

instance (s : Span) (column : Nat) : Decidable (s.MeetsColumn column) :=
  inferInstanceAs (Decidable (_ ∧ _))

/-- The colour that a span gives to a pixel it covers. -/
def colour? (s : Span) (column row : Nat) : Option Rgba :=
  match s.paint with
  | .solid colour => some colour
  | .window picture x y => picture.pixel? (x + (column - s.left)) (y + (row - s.top))

end Span

/-- What a leaf paints on a canvas. A window has to lie in the source image. -/
def Leaf.paint (leaf : Leaf) (c : Canvas) : Except Error Paint :=
  match leaf.fill with
  | .solid colour => .ok (.solid colour)
  | .image anchor =>
    match c.source with
    | none => .error (.sourceNotLoaded leaf.rect)
    | some picture =>
      let size := leaf.rect.size
      if anchor.x + size.x ≤ picture.width ∧ anchor.y + size.y ≤ picture.height then
        -- the upper edge of the window, counted from the top
        .ok (.window picture anchor.x (picture.height - (anchor.y + size.y)))
      else
        .error (.outsideSource leaf.rect picture.width picture.height anchor)

/-- The span of a leaf on a canvas. -/
def Leaf.span (leaf : Leaf) (c : Canvas) : Except Failure Span := do
  let paint ← orRefuse (leaf.paint c)
  let rect := leaf.rect
  if rect.topRight.y ≤ c.height then
    return {
      left := rect.bottomLeft.x
      right := rect.topRight.x
      top := c.height - rect.topRight.y
      bottom := c.height - rect.bottomLeft.y
      paint }
  else
    throw (.overflow .subtract)

namespace Canvas

/-- The colour of a pixel under spans that meet its row, the last one first. -/
def shade (spans : List Span) (column row : Nat) : Rgba :=
  (spans.findSome? fun s => if s.MeetsColumn column then s.colour? column row else none).getD
    .transparent

/-- The pixels of a row under all spans. -/
def paintRow (spans : List Span) (width row : Nat) : Array Rgba :=
  -- a span beyond the right edge is left out as a whole
  let active := (spans.filter fun s => s.MeetsRow row ∧ s.right ≤ width).reverse
  Array.ofFn fun column : Fin width => shade active column row

/-- The pixels of the given number of rows, the top one first. -/
def paintRows (spans : List Span) (width rows : Nat) : Array Rgba :=
  rows.fold (fun row _ done => done ++ paintRow spans width row) #[]

theorem paintRows_succ (spans : List Span) (width rows : Nat) :
    paintRows spans width (rows + 1) = paintRows spans width rows ++ paintRow spans width rows :=
  rfl

theorem size_paintRows (spans : List Span) (width rows : Nat) :
    (paintRows spans width rows).size = width * rows := by
  induction rows with
  | zero => rfl
  | succ rows ih => simp [paintRows_succ, paintRow, ih, Nat.mul_succ]

/-- The picture of a canvas. -/
def draw (c : Canvas) (threading : Threading) : Except Failure Frame := do
  let spans ← c.leaves.mapM (·.span c)
  if ¬ Frame.Fits c.size then
    throw (.overflow .capacity)
  else if threading.parallel ∧ threading.threads = some 0 then
    throw (.refused .noThreads)
  else
    return {
      width := c.width
      height := c.height
      pixels := paintRows spans c.width c.height
      width_lt := c.size.x_lt
      height_lt := c.size.y_lt
      size_pixels := size_paintRows spans c.width c.height
      width_pos := c.width_pos
      height_pos := c.height_pos }

end Canvas

end Easel
