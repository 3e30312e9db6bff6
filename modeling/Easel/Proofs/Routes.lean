import Easel.Proofs.Board

/-!
# What routing conserves

A leaf goes to one piece of a cut or is divided among several. Either way nothing gets lost and
nothing is added: the list of a piece has only cells on the side of the piece, and over each of
these cells it has the same fills in the same order as the list that was routed. That is
`IsShare`, for any list of leaves, wherever they lie and however they overlap.

Tilings are told by cells as well, so a share of a tiling tiles whatever rectangle has the
cells on that side (`IsShare.tiled`); this needs nothing else about cuts.

Main statement: `routing_shares_out_cells`.
-/

namespace Easel

/-- The piece on a side of a line. -/
def Halves.part {α : Type} (h : Halves α) : Half → α
  | .low => h.low
  | .high => h.high

/-- The piece on a side of the vertical and on a side of the horizontal line through a point. -/
def Quarters.part {α : Type} (q : Quarters α) : Half → Half → α
  | .low, .low => q.bottomLeft
  | .high, .low => q.bottomRight
  | .high, .high => q.topRight
  | .low, .high => q.topLeft

/-- The leaves `share` show what `leaves` show in the cells of a region, and have no other
cells. -/
structure IsShare (region : Nat → Nat → Prop) (leaves share : List Leaf) : Prop where
  inside : ∀ leaf ∈ share, ∀ x y, leaf.rect.Covers x y → region x y
  fillsAt_eq : ∀ x y, region x y → fillsAt share x y = fillsAt leaves x y

theorem fillsAt_ne_nil_iff {leaves : List Leaf} {x y : Nat} :
    fillsAt leaves x y ≠ [] ↔ ∃ leaf ∈ leaves, leaf.rect.Covers x y := by
  simp only [fillsAt, Ne, List.map_eq_nil_iff, List.filter_eq_nil_iff, decide_eq_true_eq,
    not_forall, not_not, exists_prop]

namespace IsShare

variable {region region' : Nat → Nat → Prop} {leaves share share' : List Leaf}

/-- A cell of a share is a cell of the whole. -/
theorem exists_covers (h : IsShare region leaves share) {leaf : Leaf} (hl : leaf ∈ share)
    {x y : Nat} (hc : leaf.rect.Covers x y) : ∃ whole ∈ leaves, whole.rect.Covers x y := by
  rw [← fillsAt_ne_nil_iff, ← h.fillsAt_eq x y (h.inside leaf hl x y hc)]
  exact fillsAt_ne_nil_iff.2 ⟨leaf, hl, hc⟩

/-- A share of a share. -/
theorem trans (h : IsShare region leaves share) (h' : IsShare region' share share') :
    IsShare (fun x y => region x y ∧ region' x y) leaves share' where
  inside leaf hl x y hc := by
    obtain ⟨whole, hwhole, hcovers⟩ := h'.exists_covers hl hc
    exact ⟨h.inside whole hwhole x y hcovers, h'.inside leaf hl x y hc⟩
  fillsAt_eq x y hregion := by
    rw [h'.fillsAt_eq x y hregion.2, h.fillsAt_eq x y hregion.1]

/-- A share of leaves that tile a rectangle tiles the part of it in the region. -/
theorem tiled {r piece : Rect} (h : IsShare region leaves share)
    (ht : (Block.complex r leaves).Tiled)
    (hp : ∀ x y, piece.Covers x y ↔ r.Covers x y ∧ region x y) :
    (Block.complex piece share).Tiled where
  inside leaf hl := by
    refine Rect.contains_of_covers fun x y hc => (hp x y).2 ?_
    obtain ⟨whole, hwhole, hcovers⟩ := h.exists_covers hl hc
    exact ⟨(ht.inside whole hwhole).covers hcovers, h.inside leaf hl x y hc⟩
  once x y hc := by
    obtain ⟨hcovers, hregion⟩ := (hp x y).1 hc
    show share.countP (·.rect.Covers x y) = 1
    rw [← length_fillsAt, h.fillsAt_eq x y hregion, length_fillsAt]
    exact ht.once x y hcovers

end IsShare

/-- The parts of leaves on one side of a line are a share. -/
theorem isShare_filterMap_half? (leaves : List Leaf) (half : Half) (axis : Axis)
    (position : Coordinate) :
    IsShare (half.Has axis position.val) leaves
      (leaves.filterMap (·.half? half axis position)) where
  inside leaf hl x y hc := by
    obtain ⟨whole, -, hpart⟩ := List.mem_filterMap.1 hl
    exact ((Rect.covers_half? (Leaf.half?_eq_some_iff.1 hpart).1 x y).1 hc).2
  fillsAt_eq x y hregion := by
    rw [fillsAt_filterMap_half?, if_pos hregion]

/-- The parts of leaves in one quadrant around a point are a share. -/
theorem isShare_filterMap_quarter? (leaves : List Leaf) (side level : Half) (p : Point) :
    IsShare (fun x y => side.Has .x p.x x y ∧ level.Has .y p.y x y) leaves
      (leaves.filterMap (·.quarter? side level p)) := by
  have h := (isShare_filterMap_half? leaves side .x (p.along .x)).trans
    (isShare_filterMap_half? _ level .y (p.along .y))
  rwa [List.filterMap_filterMap] at h

/-! ## The pieces of a rectangle through their cells -/

namespace Rect

variable {r : Rect} {axis : Axis} {position : Coordinate} {p : Point}

theorem covers_part_of_split {pieces : Halves Rect} (h : r.split axis position = .ok pieces)
    (half : Half) (x y : Nat) :
    (pieces.part half).Covers x y ↔ r.Covers x y ∧ half.Has axis position.val x y := by
  obtain ⟨hlow, hhigh⟩ := split_eq_ok_iff.1 h
  cases half with
  | low => exact covers_half? hlow x y
  | high => exact covers_half? hhigh x y

theorem covers_part_of_quadrants {pieces : Quarters Rect} (h : r.quadrants p = .ok pieces)
    (side level : Half) (x y : Nat) : (pieces.part side level).Covers x y ↔
      r.Covers x y ∧ side.Has .x p.x x y ∧ level.Has .y p.y x y := by
  obtain ⟨hbl, hbr, htr, htl⟩ := quadrants_eq_ok_iff.1 h
  match side, level with
  | .low, .low => exact covers_quarter? hbl x y
  | .high, .low => exact covers_quarter? hbr x y
  | .high, .high => exact covers_quarter? htr x y
  | .low, .high => exact covers_quarter? htl x y

end Rect

/-- Leaves are routed to the pieces of a cut along a line or at a point without failure. Each
piece gets its share: only cells on its side, and over these all that lay over them, in the old
order. So if the leaves tiled a rectangle through whose interior the line or the point goes,
each piece of the rectangle is tiled by at least one leaf. -/
theorem routing_shares_out_cells (leaves : List Leaf) :
    (∀ axis position, ∃ routed, routeLine axis position leaves = .ok routed ∧
      (∀ half, IsShare (half.Has axis position.val) leaves (routed.part half)) ∧
      ∀ r : Rect, (Block.complex r leaves).Tiled → r.CrossedAt axis position →
        ∃ pieces, r.split axis position = .ok pieces ∧ ∀ half, routed.part half ≠ [] ∧
          (Block.complex (pieces.part half) (routed.part half)).Tiled) ∧
    ∀ p, ∃ routed, routePoint p leaves = .ok routed ∧
      (∀ side level, IsShare (fun x y => side.Has .x p.x x y ∧ level.Has .y p.y x y) leaves
        (routed.part side level)) ∧
      ∀ r : Rect, (Block.complex r leaves).Tiled → p.StrictlyInside r →
        ∃ pieces, r.quadrants p = .ok pieces ∧ ∀ side level, routed.part side level ≠ [] ∧
          (Block.complex (pieces.part side level) (routed.part side level)).Tiled := by
  constructor
  · intro axis position
    refine ⟨_, routeLine_eq axis position leaves, ?_⟩
    have hshare : ∀ half, IsShare (half.Has axis position.val) leaves (Halves.part
        { low := leaves.filterMap (·.half? .low axis position)
          high := leaves.filterMap (·.half? .high axis position) } half) := by
      intro half
      cases half <;> exact isShare_filterMap_half? leaves _ axis position
    refine ⟨hshare, fun r ht hcrossed => ?_⟩
    obtain ⟨pieces, hpieces⟩ := Rect.exists_split_iff.2 hcrossed
    refine ⟨pieces, hpieces, fun half => ?_⟩
    have htiled := (hshare half).tiled ht (Rect.covers_part_of_split hpieces half)
    exact ⟨htiled.leaves_ne_nil, htiled⟩
  · intro p
    refine ⟨_, routePoint_eq p leaves, ?_⟩
    have hshare : ∀ side level, IsShare (fun x y => side.Has .x p.x x y ∧ level.Has .y p.y x y)
        leaves (Quarters.part
          { bottomLeft := leaves.filterMap (·.quarter? .low .low p)
            bottomRight := leaves.filterMap (·.quarter? .high .low p)
            topRight := leaves.filterMap (·.quarter? .high .high p)
            topLeft := leaves.filterMap (·.quarter? .low .high p) } side level) := by
      intro side level
      cases side <;> cases level <;> exact isShare_filterMap_quarter? leaves _ _ p
    refine ⟨hshare, fun r ht hinside => ?_⟩
    obtain ⟨pieces, hpieces⟩ := Rect.exists_quadrants_iff.2 hinside
    refine ⟨pieces, hpieces, fun side level => ?_⟩
    have htiled := (hshare side level).tiled ht (Rect.covers_part_of_quadrants hpieces side level)
    exact ⟨htiled.leaves_ne_nil, htiled⟩

/-- A row and a window of the source image over it, two rows high; the point lies in the
window, so the row is only cut from the left to the right. -/
theorem routing_shares_out_cells_of_rows : ∃ lower upper routed pieces,
    Leaf.ofCorners .origin (.ofCoordinates 2 1) (.solid .white) = .ok lower ∧
      Leaf.ofCorners (.ofCoordinates 0 1) (.ofCoordinates 2 3) (.image .origin) = .ok upper ∧
        (Block.complex (lower.rect.hull upper.rect) [lower, upper]).Tiled ∧
          routePoint (.ofCoordinates 1 2) [lower, upper] = .ok routed ∧
            (lower.rect.hull upper.rect).quadrants (.ofCoordinates 1 2) = .ok pieces ∧
              ∀ side level, routed.part side level ≠ [] ∧
                (Block.complex (pieces.part side level) (routed.part side level)).Tiled := by
  obtain ⟨lower, hlower⟩ : ∃ leaf,
      Leaf.ofCorners .origin (.ofCoordinates 2 1) (.solid .white) = .ok leaf := ⟨_, rfl⟩
  obtain ⟨upper, hupper⟩ : ∃ leaf,
      Leaf.ofCorners (.ofCoordinates 0 1) (.ofCoordinates 2 3) (.image .origin) = .ok leaf :=
    ⟨_, rfl⟩
  have htiled : (Block.complex (lower.rect.hull upper.rect) [lower, upper]).Tiled := by
    refine (Block.tiled_simple lower).hull (Block.tiled_simple upper) ?_
    cases hlower
    cases hupper
    decide
  have hinside : (Point.ofCoordinates 1 2).StrictlyInside (lower.rect.hull upper.rect) := by
    cases hlower
    cases hupper
    decide
  obtain ⟨routed, hrouted, -, hpieces⟩ :=
    (routing_shares_out_cells [lower, upper]).2 (.ofCoordinates 1 2)
  obtain ⟨pieces, hquadrants, hparts⟩ := hpieces _ htiled hinside
  exact ⟨lower, upper, routed, pieces, hlower, hupper, htiled, hrouted, hquadrants, hparts⟩

end Easel
