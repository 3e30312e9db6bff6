import Easel.Block
import Easel.Picture
import Easel.Registry
import Easel.Text.Number

/-!
# Canvases

A canvas has a size, a background, named blocks in paint order and possibly a
source image of its own size. The type keeps two promises: every block lies
inside the canvas, and the source image is exactly as large as the canvas.
Nothing is promised about the leaves of a block, or about blocks that overlap.

Main statements: the three `blocks_` lemmas say what the operations do to the
blocks, and `insert_eq_error_iff` says when a block is refused.
-/

namespace Easel

/-- A canvas with named blocks in paint order. -/
structure Canvas where
  /-- Width and height. -/
  size : Point
  background : Rgba
  /-- The blocks, the one painted first in front. -/
  blocks : Registry Block
  /-- The picture that image fills show. -/
  source : Option Picture
  width_pos : 0 < size.x
  height_pos : 0 < size.y
  /-- Every block lies inside the canvas. -/
  topRight_le : ∀ e ∈ blocks.entries,
    e.2.rect.topRight.x ≤ size.x ∧ e.2.rect.topRight.y ≤ size.y
  /-- The source image is as large as the canvas. -/
  source_size : ∀ p ∈ source, p.width = size.x ∧ p.height = size.y

namespace Canvas

/-- The name of the only block of a new canvas. -/
def rootId : String := "0"

/-- The number of columns. -/
def width (c : Canvas) : Nat := c.size.x

/-- The number of rows. -/
def height (c : Canvas) : Nat := c.size.y

/-- The number of cells. -/
def area (c : Canvas) : Nat := c.size.area

/-- The rectangle of the whole canvas. -/
def bounds (c : Canvas) : Rect where
  bottomLeft := .origin
  topRight := c.size
  x_lt := c.width_pos
  y_lt := c.height_pos

/-- The canvas of the given size with no block at all. -/
def bare (size : Point) (background : Rgba) : Except Error Canvas :=
  if h : size.Positive then
    .ok
      { size
        background
        blocks := ∅
        source := none
        width_pos := h.x_pos
        height_pos := h.y_pos
        topRight_le := nofun
        source_size := nofun }
  else
    .error .emptyCanvas

/-- The canvas with `block` under `id`: in the place of an old block of that
name, else last. A block that reaches beyond the canvas is refused. -/
def insert (c : Canvas) (id : String) (block : Block) : Except Error Canvas :=
  if h : c.bounds.Contains block.rect then
    .ok
      { c with
        blocks := c.blocks.insert id block
        topRight_le := by
          intro e he
          rcases Registry.mem_of_mem_insert he with rfl | he
          · exact ⟨h.2.2.1, h.2.2.2.2⟩
          · exact c.topRight_le e he }
  else
    .error (.outsideCanvas id block.rect c.width c.height)

/-- The canvas without the block `id`. -/
def erase (c : Canvas) (id : String) : Canvas :=
  { c with
    blocks := c.blocks.erase id
    topRight_le := fun e he => c.topRight_le e (Registry.mem_of_mem_erase he) }

/-- The canvas whose image fills show `picture`. -/
def setSource (c : Canvas) (picture : Picture) : Except Error Canvas :=
  if h : picture.width = c.size.x ∧ picture.height = c.size.y then
    .ok
      { c with
        source := some picture
        source_size := by
          intro p hp
          obtain rfl := Option.mem_some_iff.1 hp
          exact h }
  else
    .error (.sourceSize picture.width picture.height c.width c.height)

/-- The canvas of the given size with one block, which has the colour of the
background and covers everything. -/
def blank (size : Point) (background : Rgba) : Except Error Canvas := do
  let c ← bare size background
  c.insert rootId (.simple { rect := c.bounds, fill := .solid background })

/-- The block with a name. -/
def get? (c : Canvas) (id : String) : Option Block :=
  c.blocks.get? id

/-- The block with a name, which has to exist. -/
def block (c : Canvas) (id : String) : Except Error Block :=
  match c.get? id with
  | some b => .ok b
  | none => .error (.blockNotFound id)

/-- The names in paint order. -/
def ids (c : Canvas) : List String :=
  c.blocks.names

/-- All leaves in paint order. -/
def leaves (c : Canvas) : List Leaf :=
  c.blocks.values.flatMap Block.leaves

/-- The largest name that reads as a number of 64 bits. -/
def maxNumericId (c : Canvas) : Option Nat :=
  (c.ids.filterMap (Number.ofText? 18446744073709551616)).max?

theorem insert_eq_error_iff {c : Canvas} {id : String} {b : Block} {e : Error} :
    c.insert id b = .error e ↔
      ¬ c.bounds.Contains b.rect ∧ e = .outsideCanvas id b.rect c.width c.height := by
  unfold insert
  split
  · simp_all
  · simp_all [eq_comm]

theorem blocks_insert {c d : Canvas} {id : String} {b : Block} (h : c.insert id b = .ok d) :
    d.blocks = c.blocks.insert id b := by
  unfold insert at h
  split at h
  · cases h; rfl
  · cases h

@[simp] theorem blocks_erase (c : Canvas) (id : String) :
    (c.erase id).blocks = c.blocks.erase id := rfl

theorem blocks_setSource {c d : Canvas} {p : Picture} (h : c.setSource p = .ok d) :
    d.blocks = c.blocks := by
  unfold setSource at h
  split at h
  · cases h; rfl
  · cases h

end Canvas

end Easel
