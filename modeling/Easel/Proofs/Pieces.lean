import Easel.Proofs.Cells

/-!
# The pieces of a block

A cut takes from every leaf the part on each side, in the order of the leaves. So
`routeLine` and `routePoint` never fail, and their lists are the parts of all
leaves that have one (`routeLine_eq`, `routePoint_eq`). A block as a whole is cut
the same way, whether it is one leaf or several: `Block.half?` takes the part of
its rectangle and the parts of its leaves (`rect_half?`, `leaves_half?`), and
`cutLine_eq_ok_iff` and `cutPoint_eq_ok_iff` say that the pieces of a cut are
such parts.

What a cut conserves is told cell by cell: `fillsAt` is what the leaves over a
cell show, and `fillsAt_filterMap_half?` says that a cell keeps all of it on its
own side of the cut.
-/

namespace Easel

/-! ## Sides and parts -/

namespace Rect

variable {r : Rect} {axis : Axis} (position : Coordinate)

theorem half?_of_side_below (h : r.side axis position.val = .below) :
    r.half? .low axis position = some r ∧ r.half? .high axis position = none := by
  have hle : r.high axis ≤ position.val := by
    unfold side at h
    split at h
    · assumption
    · split at h <;> cases h
  constructor
  · exact half?_eq_self (by simp only [Half.other, Half.Meets]; omega)
  · exact half?_eq_none_iff.2 (by simp only [Half.Meets]; omega)

theorem half?_of_side_above (h : r.side axis position.val = .above) :
    r.half? .low axis position = none ∧ r.half? .high axis position = some r := by
  have hle : position.val ≤ r.low axis := by
    unfold side at h
    split at h
    · cases h
    · split at h
      · assumption
      · cases h
  constructor
  · exact half?_eq_none_iff.2 (by simp only [Half.Meets]; omega)
  · exact half?_eq_self (by simp only [Half.other, Half.Meets]; omega)

theorem split_of_side_across (h : r.side axis position.val = .across) :
    ∃ pieces, r.split axis position = .ok pieces ∧
      r.half? .low axis position = some pieces.low ∧
        r.half? .high axis position = some pieces.high := by
  have hlt : r.low axis < position.val ∧ position.val < r.high axis := by
    unfold side at h
    split at h
    · cases h
    · split at h
      · cases h
      · omega
  obtain ⟨pieces, hs⟩ := exists_split_iff.2 hlt
  exact ⟨pieces, hs, split_eq_ok_iff.1 hs⟩

/-- A cut along one axis leaves the side on the other one alone. -/
theorem side_half?_x {q : Rect} {half : Half} {position : Coordinate}
    (h : r.half? half .x position = some q) (place : Nat) :
    q.side .y place = r.side .y place := by
  obtain ⟨hbl, htr⟩ := half?_eq_some_iff.1 h
  have hlow : q.low .y = r.low .y := by
    cases half <;> simp only [Rect.low, hbl, Half.lower]
  have hhigh : q.high .y = r.high .y := by
    cases half <;> simp only [Rect.high, htr, Half.upper]
  unfold side
  rw [hlow, hhigh]

end Rect

/-! ## The parts of a leaf -/

namespace Leaf

/-- The part of a leaf on one side of a place on an axis. -/
def half? (leaf : Leaf) (half : Half) (axis : Axis) (position : Coordinate) : Option Leaf :=
  (leaf.rect.half? half axis position).map leaf.withRect

/-- The part of a leaf on the given sides of a point. -/
def quarter? (leaf : Leaf) (side level : Half) (p : Point) : Option Leaf :=
  (leaf.half? side .x (p.along .x)).bind (·.half? level .y (p.along .y))

theorem half?_eq_some_iff {leaf piece : Leaf} {half : Half} {axis : Axis}
    {position : Coordinate} :
    leaf.half? half axis position = some piece ↔
      leaf.rect.half? half axis position = some piece.rect ∧ piece.fill = leaf.fill := by
  simp only [half?, Option.map_eq_some_iff]
  constructor
  · intro h
    obtain ⟨q, hq, rfl⟩ := h
    exact ⟨hq, rfl⟩
  · intro h
    obtain ⟨hq, hfill⟩ := h
    refine ⟨_, hq, ?_⟩
    rw [withRect, ← hfill]

theorem half?_eq_none_iff {leaf : Leaf} {half : Half} {axis : Axis} {position : Coordinate} :
    leaf.half? half axis position = none ↔ leaf.rect.half? half axis position = none := by
  simp only [half?, Option.map_eq_none_iff]

/-- A leaf adds its two parts to the pieces of a cut along a line. -/
theorem halves_eq (leaf : Leaf) (axis : Axis) (position : Coordinate) :
    leaf.halves axis position =
      .ok
        { low := (leaf.half? .low axis position).toList
          high := (leaf.half? .high axis position).toList } := by
  unfold halves half?
  split
  next hs =>
    obtain ⟨hl, hh⟩ := Rect.half?_of_side_below position hs
    rw [hl, hh]
    rfl
  next hs =>
    obtain ⟨hl, hh⟩ := Rect.half?_of_side_above position hs
    rw [hl, hh]
    rfl
  next hs =>
    obtain ⟨pieces, hsplit, hl, hh⟩ := Rect.split_of_side_across position hs
    rw [hsplit, hl, hh]
    rfl

theorem quarter?_eq_map (leaf : Leaf) (side level : Half) (p : Point) :
    leaf.quarter? side level p = (leaf.rect.quarter? side level p).map leaf.withRect := by
  unfold quarter? half? Rect.quarter?
  cases leaf.rect.half? side .x (p.along .x) with
  | none => rfl
  | some q => rfl

/-- A leaf adds its four parts to the pieces of a cut at a point. -/
theorem quarters_eq (leaf : Leaf) (p : Point) :
    leaf.quarters p =
      .ok
        { bottomLeft := (leaf.quarter? .low .low p).toList
          bottomRight := (leaf.quarter? .high .low p).toList
          topRight := (leaf.quarter? .high .high p).toList
          topLeft := (leaf.quarter? .low .high p).toList } := by
  simp only [quarter?_eq_map]
  unfold quarters Rect.quarter?
  split
  next hx hy =>
    obtain ⟨hl, hh⟩ := Rect.half?_of_side_below (p.along .x) hx
    obtain ⟨hl', hh'⟩ := Rect.half?_of_side_below (p.along .y) hy
    simp only [hl, hh, Option.bind_some, Option.bind_none, hl', hh']
    rfl
  next hx hy =>
    obtain ⟨hl, hh⟩ := Rect.half?_of_side_above (p.along .x) hx
    obtain ⟨hl', hh'⟩ := Rect.half?_of_side_below (p.along .y) hy
    simp only [hl, hh, Option.bind_some, Option.bind_none, hl', hh']
    rfl
  next hx hy =>
    obtain ⟨hl, hh⟩ := Rect.half?_of_side_above (p.along .x) hx
    obtain ⟨hl', hh'⟩ := Rect.half?_of_side_above (p.along .y) hy
    simp only [hl, hh, Option.bind_some, Option.bind_none, hl', hh']
    rfl
  next hx hy =>
    obtain ⟨hl, hh⟩ := Rect.half?_of_side_below (p.along .x) hx
    obtain ⟨hl', hh'⟩ := Rect.half?_of_side_above (p.along .y) hy
    simp only [hl, hh, Option.bind_some, Option.bind_none, hl', hh']
    rfl
  next hx hy =>
    -- the leaf is cut along both axes
    obtain ⟨_, hs, -, -⟩ := Rect.split_of_side_across (p.along .x) hx
    obtain ⟨_, hs', -, -⟩ := Rect.split_of_side_across (p.along .y) hy
    obtain ⟨hlx, hrx⟩ := Rect.exists_split_iff.1 ⟨_, hs⟩
    obtain ⟨hly, hry⟩ := Rect.exists_split_iff.1 ⟨_, hs'⟩
    obtain ⟨q, hq⟩ := Rect.exists_quadrants_iff.2 (show p.StrictlyInside leaf.rect from
      ⟨hlx, hrx, hly, hry⟩)
    obtain ⟨h₁, h₂, h₃, h₄⟩ := Rect.quadrants_eq_ok_iff.1 hq
    unfold Rect.quarter? at h₁ h₂ h₃ h₄
    rw [hq, h₁, h₂, h₃, h₄]
    rfl
  next hx hy =>
    obtain ⟨pieces, hs, hl, hh⟩ := Rect.split_of_side_across (p.along .x) hx
    obtain ⟨hl', hh'⟩ := Rect.half?_of_side_below (p.along .y)
      ((Rect.side_half?_x hl _).trans hy)
    obtain ⟨hl'', hh''⟩ := Rect.half?_of_side_below (p.along .y)
      ((Rect.side_half?_x hh _).trans hy)
    rw [show leaf.rect.splitVertical ⟨p.x, p.x_lt⟩ = .ok pieces from hs]
    simp only [hl, hh, Option.bind_some, hl', hh', hl'', hh'']
    rfl
  next hx hy =>
    obtain ⟨pieces, hs, hl, hh⟩ := Rect.split_of_side_across (p.along .x) hx
    obtain ⟨hl', hh'⟩ := Rect.half?_of_side_above (p.along .y)
      ((Rect.side_half?_x hl _).trans hy)
    obtain ⟨hl'', hh''⟩ := Rect.half?_of_side_above (p.along .y)
      ((Rect.side_half?_x hh _).trans hy)
    rw [show leaf.rect.splitVertical ⟨p.x, p.x_lt⟩ = .ok pieces from hs]
    simp only [hl, hh, Option.bind_some, hl', hh', hl'', hh'']
    rfl
  next hx hy =>
    obtain ⟨hl, hh⟩ := Rect.half?_of_side_below (p.along .x) hx
    obtain ⟨pieces, hs, hl', hh'⟩ := Rect.split_of_side_across (p.along .y) hy
    rw [show leaf.rect.splitHorizontal ⟨p.y, p.y_lt⟩ = .ok pieces from hs]
    simp only [hl, hh, Option.bind_some, Option.bind_none, hl', hh']
    rfl
  next hx hy =>
    obtain ⟨hl, hh⟩ := Rect.half?_of_side_above (p.along .x) hx
    obtain ⟨pieces, hs, hl', hh'⟩ := Rect.split_of_side_across (p.along .y) hy
    rw [show leaf.rect.splitHorizontal ⟨p.y, p.y_lt⟩ = .ok pieces from hs]
    simp only [hl, hh, Option.bind_some, Option.bind_none, hl', hh']
    rfl

end Leaf

/-! ## The parts of a list of leaves -/

theorem filterMap_cons_toList {α β : Type} (f : α → Option β) (a : α) (as : List α) :
    (a :: as).filterMap f = (f a).toList ++ as.filterMap f := by
  cases h : f a <;> simp [h]

/-- Routing along a line never fails: each piece gets the parts of all leaves. -/
theorem routeLine_eq (axis : Axis) (position : Coordinate) (leaves : List Leaf) :
    routeLine axis position leaves =
      .ok
        { low := leaves.filterMap (·.half? .low axis position)
          high := leaves.filterMap (·.half? .high axis position) } := by
  induction leaves with
  | nil => rfl
  | cons leaf leaves ih =>
    simp only [routeLine, Leaf.halves_eq, ih, bind, Except.bind, pure, Except.pure,
      filterMap_cons_toList]

/-- Routing around a point never fails: each piece gets the parts of all leaves. -/
theorem routePoint_eq (p : Point) (leaves : List Leaf) :
    routePoint p leaves =
      .ok
        { bottomLeft := leaves.filterMap (·.quarter? .low .low p)
          bottomRight := leaves.filterMap (·.quarter? .high .low p)
          topRight := leaves.filterMap (·.quarter? .high .high p)
          topLeft := leaves.filterMap (·.quarter? .low .high p) } := by
  induction leaves with
  | nil => rfl
  | cons leaf leaves ih =>
    simp only [routePoint, Leaf.quarters_eq, ih, bind, Except.bind, pure, Except.pure,
      filterMap_cons_toList]

/-- What is told of the leaves over a cell, the lowest first. -/
def seenAt {α : Type} (g : Leaf → α) (leaves : List Leaf) (x y : Nat) : List α :=
  (leaves.filter (·.rect.Covers x y)).map g

section
variable {α : Type} (g : Leaf → α)

theorem seenAt_cons (leaf : Leaf) (leaves : List Leaf) (x y : Nat) :
    seenAt g (leaf :: leaves) x y
      = if leaf.rect.Covers x y then g leaf :: seenAt g leaves x y else seenAt g leaves x y := by
  unfold seenAt
  rw [List.filter_cons]
  by_cases h : leaf.rect.Covers x y
  · simp only [h, decide_true, if_true, List.map_cons]
  · simp only [h, decide_false, if_false, Bool.false_eq_true]

theorem seenAt_append (leaves leaves' : List Leaf) (x y : Nat) :
    seenAt g (leaves ++ leaves') x y = seenAt g leaves x y ++ seenAt g leaves' x y := by
  unfold seenAt
  rw [List.filter_append, List.map_append]

/-- A cut keeps what is seen of a cell in the piece on the side of the cell, and nothing of
it in the other one, if the parts of a leaf are seen as the leaf is. -/
theorem seenAt_filterMap_half? {leaves : List Leaf} {half : Half} {axis : Axis}
    {position : Coordinate}
    (hg : ∀ leaf ∈ leaves, ∀ piece, leaf.half? half axis position = some piece → g piece = g leaf)
    (x y : Nat) :
    seenAt g (leaves.filterMap (·.half? half axis position)) x y
      = if half.Has axis position.val x y then seenAt g leaves x y else [] := by
  induction leaves with
  | nil => simp [seenAt]
  | cons leaf leaves ih =>
    replace ih := ih fun l hl => hg l (List.mem_cons_of_mem _ hl)
    rw [seenAt_cons]
    cases hp : leaf.half? half axis position with
    | none =>
      simp only [List.filterMap_cons, hp, ih]
      by_cases hc : leaf.rect.Covers x y
      · have hn := Rect.not_has_of_half?_eq_none (Leaf.half?_eq_none_iff.1 hp) hc
        rw [if_neg hn, if_neg hn]
      · rw [if_neg hc]
    | some piece =>
      have hpiece := hg leaf List.mem_cons_self piece hp
      have hcov := Rect.covers_half? (Leaf.half?_eq_some_iff.1 hp).1 x y
      simp only [List.filterMap_cons, hp, seenAt_cons, ih, hpiece]
      by_cases hh : half.Has axis position.val x y
      · simp only [hcov, hh, and_true, if_true]
      · simp only [hcov, hh, and_false, if_false]

end

/-- What the leaves over a cell show, the lowest first. -/
def fillsAt (leaves : List Leaf) (x y : Nat) : List Fill :=
  (leaves.filter (·.rect.Covers x y)).map (·.fill)

theorem fillsAt_cons (leaf : Leaf) (leaves : List Leaf) (x y : Nat) :
    fillsAt (leaf :: leaves) x y
      = if leaf.rect.Covers x y then leaf.fill :: fillsAt leaves x y else fillsAt leaves x y :=
  seenAt_cons (·.fill) leaf leaves x y

theorem length_fillsAt (leaves : List Leaf) (x y : Nat) :
    (fillsAt leaves x y).length = leaves.countP (·.rect.Covers x y) := by
  rw [fillsAt, List.length_map, List.countP_eq_length_filter]

/-- A cut keeps what a cell shows in the piece on the side of the cell, and shows
nothing of it in the other one. -/
theorem fillsAt_filterMap_half? (leaves : List Leaf) (half : Half) (axis : Axis)
    (position : Coordinate) (x y : Nat) :
    fillsAt (leaves.filterMap (·.half? half axis position)) x y
      = if half.Has axis position.val x y then fillsAt leaves x y else [] :=
  seenAt_filterMap_half? (·.fill) (fun _ _ _ hp => (Leaf.half?_eq_some_iff.1 hp).2) x y

/-! ## The parts of a block -/

namespace Block

/-- The part of a block on one side of a place on an axis. -/
def half? (block : Block) (half : Half) (axis : Axis) (position : Coordinate) : Option Block :=
  match block with
  | simple leaf => (leaf.half? half axis position).map simple
  | complex rect children =>
    (rect.half? half axis position).map
      (complex · (children.filterMap (·.half? half axis position)))

/-- The part of a block on the given sides of a point. -/
def quarter? (block : Block) (side level : Half) (p : Point) : Option Block :=
  (block.half? side .x (p.along .x)).bind (·.half? level .y (p.along .y))

section
variable {block piece : Block} {half : Half} {axis : Axis} {position : Coordinate}

/-- The part of a block fills the part of its rectangle. -/
theorem map_rect_half? (block : Block) (half : Half) (axis : Axis) (position : Coordinate) :
    (block.half? half axis position).map rect = block.rect.half? half axis position := by
  cases block with
  | simple leaf =>
    simp only [half?, Leaf.half?, rect]
    cases leaf.rect.half? half axis position <;> rfl
  | complex r children =>
    simp only [half?, rect]
    cases r.half? half axis position <;> rfl

theorem rect_half? (h : block.half? half axis position = some piece) :
    block.rect.half? half axis position = some piece.rect := by
  rw [← map_rect_half?, h, Option.map_some]

theorem rect_quarter? {side level : Half} {p : Point}
    (h : block.quarter? side level p = some piece) :
    block.rect.quarter? side level p = some piece.rect := by
  obtain ⟨m, hm, hp⟩ := Option.bind_eq_some_iff.1 h
  exact Option.bind_eq_some_iff.2 ⟨m.rect, rect_half? hm, rect_half? hp⟩

/-- The leaves of a part are the parts of the leaves. -/
theorem leaves_half? (h : block.half? half axis position = some piece) :
    piece.leaves = block.leaves.filterMap (·.half? half axis position) := by
  cases block with
  | simple leaf =>
    simp only [half?, Option.map_eq_some_iff] at h
    obtain ⟨l, hl, rfl⟩ := h
    simp only [leaves, List.filterMap_cons, hl, List.filterMap_nil]
  | complex r children =>
    simp only [half?, Option.map_eq_some_iff] at h
    obtain ⟨q, -, rfl⟩ := h
    rfl

theorem exists_half?_iff :
    (∃ piece, block.half? half axis position = some piece) ↔
      half.Meets axis position.val block.rect := by
  rw [← Rect.exists_half?_iff, ← map_rect_half?]
  cases block.half? half axis position <;> simp

end

/-- A line cuts a block into its two parts, if it has both. -/
theorem cutLine_eq_ok_iff {block : Block} {axis : Axis} {position : Coordinate}
    {pieces : Halves Block} :
    block.cutLine axis position = .ok pieces ↔
      block.half? .low axis position = some pieces.low ∧
        block.half? .high axis position = some pieces.high := by
  cases block with
  | simple leaf =>
    simp only [cutLine, half?, Leaf.half?, rect, bind_eq_ok_iff, Rect.split_eq_ok_iff, pure,
      Except.pure, Except.ok.injEq]
    constructor
    · intro h
      obtain ⟨rects, ⟨hl, hh⟩, rfl⟩ := h
      simp only [hl, hh, Option.map_some, and_self]
    · simp only [Option.map_eq_some_iff]
      intro h'
      obtain ⟨⟨_, ⟨l, hl, rfl⟩, hl'⟩, _, ⟨h, hh, rfl⟩, hh'⟩ := h'
      refine ⟨⟨l, h⟩, ⟨hl, hh⟩, ?_⟩
      rw [hl', hh']
  | complex r children =>
    simp only [cutLine, half?, rect, bind_eq_ok_iff, Rect.split_eq_ok_iff, routeLine_eq, pure,
      Except.pure, Except.ok.injEq]
    constructor
    · intro h
      obtain ⟨rects, ⟨hl, hh⟩, _, rfl, rfl⟩ := h
      simp only [hl, hh, Option.map_some, and_self]
    · simp only [Option.map_eq_some_iff]
      intro h'
      obtain ⟨⟨l, hl, hl'⟩, h, hh, hh'⟩ := h'
      refine ⟨⟨l, h⟩, ⟨hl, hh⟩, _, rfl, ?_⟩
      rw [hl', hh']

/-- A block is cut where its rectangle is. -/
theorem split_of_cutLine {block : Block} {axis : Axis} {position : Coordinate}
    {pieces : Halves Block} (h : block.cutLine axis position = .ok pieces) :
    block.rect.split axis position = .ok { low := pieces.low.rect, high := pieces.high.rect } := by
  obtain ⟨hl, hh⟩ := cutLine_eq_ok_iff.1 h
  exact Rect.split_eq_ok_iff.2 ⟨rect_half? hl, rect_half? hh⟩

theorem exists_cutLine_iff {block : Block} {axis : Axis} {position : Coordinate} :
    (∃ pieces, block.cutLine axis position = .ok pieces) ↔
      block.rect.low axis < position.val ∧ position.val < block.rect.high axis := by
  constructor
  · intro h'
    obtain ⟨pieces, h⟩ := h'
    obtain ⟨hl, hh⟩ := cutLine_eq_ok_iff.1 h
    exact ⟨exists_half?_iff.1 ⟨_, hl⟩, exists_half?_iff.1 ⟨_, hh⟩⟩
  · intro h
    obtain ⟨hl, hh⟩ := h
    obtain ⟨l, hl⟩ := exists_half?_iff.2 (show Half.low.Meets axis position.val block.rect from hl)
    obtain ⟨g, hg⟩ := exists_half?_iff.2 (show Half.high.Meets axis position.val block.rect from hh)
    exact ⟨⟨l, g⟩, cutLine_eq_ok_iff.2 ⟨hl, hg⟩⟩

theorem quarter?_simple (leaf : Leaf) (side level : Half) (p : Point) :
    (simple leaf).quarter? side level p
      = (leaf.rect.quarter? side level p).map fun q => simple (leaf.withRect q) := by
  simp only [quarter?, half?, Leaf.half?, Rect.quarter?]
  cases leaf.rect.half? side .x (p.along .x) with
  | none => rfl
  | some m =>
    simp only [Option.map_some, Option.bind_some, Option.map_map]
    rfl

theorem quarter?_complex (r : Rect) (children : List Leaf) (side level : Half) (p : Point) :
    (complex r children).quarter? side level p
      = (r.quarter? side level p).map
          (complex · (children.filterMap (·.quarter? side level p))) := by
  simp only [quarter?, half?, Rect.quarter?]
  cases r.half? side .x (p.along .x) with
  | none => rfl
  | some m =>
    simp only [Option.map_some, Option.bind_some, List.filterMap_filterMap]
    rfl

/-- A point cuts a block into its four parts, if it has them all. -/
theorem cutPoint_eq_ok_iff {block : Block} {p : Point} {pieces : Quarters Block} :
    block.cutPoint p = .ok pieces ↔
      block.quarter? .low .low p = some pieces.bottomLeft ∧
        block.quarter? .high .low p = some pieces.bottomRight ∧
          block.quarter? .high .high p = some pieces.topRight ∧
            block.quarter? .low .high p = some pieces.topLeft := by
  cases block with
  | simple leaf =>
    simp only [cutPoint, rect, bind_eq_ok_iff, Rect.quadrants_eq_ok_iff, quarter?_simple, pure,
      Except.pure, Except.ok.injEq]
    constructor
    · intro h
      obtain ⟨rects, ⟨h₁, h₂, h₃, h₄⟩, rfl⟩ := h
      simp only [h₁, h₂, h₃, h₄, Option.map_some, and_self]
    · simp only [Option.map_eq_some_iff]
      intro h
      obtain ⟨⟨q₁, h₁, e₁⟩, ⟨q₂, h₂, e₂⟩, ⟨q₃, h₃, e₃⟩, q₄, h₄, e₄⟩ := h
      refine ⟨⟨q₁, q₂, q₃, q₄⟩, ⟨h₁, h₂, h₃, h₄⟩, ?_⟩
      rw [e₁, e₂, e₃, e₄]
  | complex r children =>
    simp only [cutPoint, rect, bind_eq_ok_iff, Rect.quadrants_eq_ok_iff, quarter?_complex,
      routePoint_eq, pure, Except.pure, Except.ok.injEq]
    constructor
    · intro h
      obtain ⟨rects, ⟨h₁, h₂, h₃, h₄⟩, _, rfl, rfl⟩ := h
      simp only [h₁, h₂, h₃, h₄, Option.map_some, and_self]
    · simp only [Option.map_eq_some_iff]
      intro h
      obtain ⟨⟨q₁, h₁, e₁⟩, ⟨q₂, h₂, e₂⟩, ⟨q₃, h₃, e₃⟩, q₄, h₄, e₄⟩ := h
      refine ⟨⟨q₁, q₂, q₃, q₄⟩, ⟨h₁, h₂, h₃, h₄⟩, _, rfl, ?_⟩
      rw [e₁, e₂, e₃, e₄]

theorem quadrants_of_cutPoint {block : Block} {p : Point} {pieces : Quarters Block}
    (h : block.cutPoint p = .ok pieces) :
    block.rect.quadrants p =
      .ok
        { bottomLeft := pieces.bottomLeft.rect
          bottomRight := pieces.bottomRight.rect
          topRight := pieces.topRight.rect
          topLeft := pieces.topLeft.rect } := by
  obtain ⟨h₁, h₂, h₃, h₄⟩ := cutPoint_eq_ok_iff.1 h
  exact Rect.quadrants_eq_ok_iff.2
    ⟨rect_quarter? h₁, rect_quarter? h₂, rect_quarter? h₃, rect_quarter? h₄⟩

theorem exists_cutPoint_iff {block : Block} {p : Point} :
    (∃ pieces, block.cutPoint p = .ok pieces) ↔ p.StrictlyInside block.rect := by
  rw [← Rect.exists_quadrants_iff]
  constructor
  · intro h'
    obtain ⟨pieces, h⟩ := h'
    obtain ⟨rects, hr, -⟩ := bind_eq_ok_iff.1 h
    exact ⟨rects, hr⟩
  · intro h
    obtain ⟨rects, hr⟩ := h
    unfold cutPoint
    cases block with
    | simple leaf => exact ⟨_, bind_eq_ok_iff.2 ⟨rects, hr, rfl⟩⟩
    | complex r children =>
      exact ⟨_, bind_eq_ok_iff.2 ⟨rects, hr, bind_eq_ok_iff.2 ⟨_, routePoint_eq p children, rfl⟩⟩⟩

/-- A cut at a point is a cut along one line, with a cut of both pieces along the other one. -/
theorem cutPoint_eq_ok_iff_cutLine {block : Block} {p : Point} {pieces : Quarters Block} :
    block.cutPoint p = .ok pieces ↔ ∃ halves, block.cutLine .x (p.along .x) = .ok halves ∧
      halves.low.cutLine .y (p.along .y) = .ok ⟨pieces.bottomLeft, pieces.topLeft⟩ ∧
        halves.high.cutLine .y (p.along .y) = .ok ⟨pieces.bottomRight, pieces.topRight⟩ := by
  simp only [cutPoint_eq_ok_iff, cutLine_eq_ok_iff, quarter?, Option.bind_eq_some_iff]
  constructor
  · intro h
    obtain ⟨⟨left, hl, hbl⟩, ⟨right, hr, hbr⟩, ⟨right', hr', htr⟩, left', hl', htl⟩ := h
    cases hl.symm.trans hl'
    cases hr.symm.trans hr'
    exact ⟨⟨left, right⟩, ⟨hl, hr⟩, ⟨hbl, htl⟩, hbr, htr⟩
  · intro h
    obtain ⟨halves, ⟨hl, hr⟩, ⟨hbl, htl⟩, hbr, htr⟩ := h
    exact ⟨⟨_, hl, hbl⟩, ⟨_, hr, hbr⟩, ⟨_, hr, htr⟩, _, hl, htl⟩

/-! ## Cutting instructions -/

/-- The pieces that a block is cut into by an instruction. -/
inductive Cut (block : Block) : Instruction → List Block → Prop
  | point (id : String) {p : Point} {pieces : Quarters Block}
      (h : block.cutPoint p = .ok pieces) : Cut block (.pointCut id p) pieces.toList
  | vertical (id : String) {x : Coordinate} {pieces : Halves Block}
      (h : block.cutLine .x x = .ok pieces) : Cut block (.verticalCut id x) pieces.toList
  | horizontal (id : String) {y : Coordinate} {pieces : Halves Block}
      (h : block.cutLine .y y = .ok pieces) : Cut block (.horizontalCut id y) pieces.toList

/-- What is kept when a part is taken holds of every piece: a piece is a part, or a
part of a part. -/
theorem Cut.induction {P : Block → Prop} {block : Block} {i : Instruction} {pieces : List Block}
    (h : block.Cut i pieces) (hblock : P block)
    (hpart : ∀ (b piece : Block) (half : Half) (axis : Axis) (position : Coordinate), P b →
      b.half? half axis position = some piece → P piece) : ∀ piece ∈ pieces, P piece := by
  have hquarter : ∀ {side level : Half} {p : Point} {piece : Block},
      block.quarter? side level p = some piece → P piece := by
    intro side level p piece hp
    obtain ⟨m, hm, hp⟩ := Option.bind_eq_some_iff.1 hp
    exact hpart _ _ _ _ _ (hpart _ _ _ _ _ hblock hm) hp
  intro piece hpiece
  cases h with
  | point id h =>
    obtain ⟨h₁, h₂, h₃, h₄⟩ := cutPoint_eq_ok_iff.1 h
    simp only [Quarters.toList, List.mem_cons, List.not_mem_nil, or_false] at hpiece
    rcases hpiece with rfl | rfl | rfl | rfl
    · exact hquarter h₁
    · exact hquarter h₂
    · exact hquarter h₃
    · exact hquarter h₄
  | vertical id h | horizontal id h =>
    obtain ⟨hl, hh⟩ := cutLine_eq_ok_iff.1 h
    simp only [Halves.toList, List.mem_cons, List.not_mem_nil, or_false] at hpiece
    rcases hpiece with rfl | rfl
    · exact hpart _ _ _ _ _ hblock hl
    · exact hpart _ _ _ _ _ hblock hh

/-- Pieces lie in their block. -/
theorem Cut.contains {block : Block} {i : Instruction} {pieces : List Block}
    (h : block.Cut i pieces) : ∀ piece ∈ pieces, block.rect.Contains piece.rect :=
  h.induction (P := fun b => block.rect.Contains b.rect) (Rect.Contains.refl _)
    fun _ _ _ _ _ hb hp => hb.trans (Rect.contains_half? (rect_half? hp))

/-- A cell of a piece shows what it showed before the cut. -/
theorem Cut.fillsAt {block : Block} {i : Instruction} {pieces : List Block}
    (h : block.Cut i pieces) : ∀ piece ∈ pieces, ∀ x y, piece.rect.Covers x y →
      fillsAt piece.leaves x y = Easel.fillsAt block.leaves x y := by
  refine h.induction (P := fun b => ∀ x y, b.rect.Covers x y →
    Easel.fillsAt b.leaves x y = Easel.fillsAt block.leaves x y) (fun _ _ _ => rfl) ?_
  intro b piece half axis position hb hp x y hc
  obtain ⟨hc, hhas⟩ := (Rect.covers_half? (rect_half? hp) x y).1 hc
  rw [leaves_half? hp, fillsAt_filterMap_half?, if_pos hhas, hb x y hc]

/-- The pieces of a cut share out the cells of their block. -/
theorem Cut.countP_covers {block : Block} {i : Instruction} {pieces : List Block}
    (h : block.Cut i pieces) (x y : Nat) :
    pieces.countP (·.rect.Covers x y) = if block.rect.Covers x y then 1 else 0 := by
  cases h with
  | point id h => exact Rect.countP_covers_quadrants (quadrants_of_cutPoint h) x y
  | vertical id h => exact Rect.countP_covers_split (split_of_cutLine h) x y
  | horizontal id h => exact Rect.countP_covers_split (split_of_cutLine h) x y

end Block

/-- The block that an instruction cuts, and into how many pieces. -/
def Instruction.cut? : Instruction → Option (String × Nat)
  | .pointCut id _ => some (id, 4)
  | .verticalCut id _ | .horizontalCut id _ => some (id, 2)
  | _ => none

end Easel
