import Easel.Proofs.Routes
import Mathlib.Algebra.BigOperators.Ring.Finset
import Mathlib.Algebra.Order.BigOperators.Group.Finset
import Mathlib.Data.Finset.Prod
import Mathlib.Order.Interval.Finset.Nat

/-!
# Areas count cells

The operations on rectangles only compare corners, take differences that stop at zero and
multiply. What they mean is told here by the finite set of cells of a rectangle: the area is the
size of the set, containment is inclusion, the overlap is the size of the intersection, and a cut
deals the cells out by the side on which they lie.

Areas and overlaps are enough to tell a tiling, without a look at a single cell: rectangles inside
another one tile it exactly if no two of them overlap and their areas add up to its area
(`tiledBy_iff`). The pairs of a cell and a rectangle over it are counted in two ways. By
rectangles they are the sum of the areas, and by cells the sum of how often each cell is covered
(`sum_countP_covers`). No cell is covered twice, so a sum as large as the number of cells leaves
none uncovered.

Main statement: `operations_tell_cells`. `Block.tiled_iff_areas` says the same of the leaves of a
block.
-/

namespace Easel

/-- The product of two coordinates fits 64 bits. -/
theorem Point.area_lt (p : Point) : p.area < 18446744073709551616 := by
  have h : p.x * p.y < 4294967296 * 4294967296 := Nat.mul_lt_mul'' p.x_lt p.y_lt
  simpa only [Point.area] using h

namespace Rect

variable {r s : Rect} {pieces : List Rect}

/-! ## The cells of a rectangle -/

/-- The cells of a rectangle, by column and row. -/
def cells (r : Rect) : Finset (Nat × Nat) :=
  Finset.Ico r.bottomLeft.x r.topRight.x ×ˢ Finset.Ico r.bottomLeft.y r.topRight.y

@[simp] theorem mem_cells {c : Nat × Nat} : c ∈ r.cells ↔ r.Covers c.1 c.2 := by
  simp only [cells, Finset.mem_product, Finset.mem_Ico, Covers, and_assoc]

theorem card_cells (r : Rect) : r.cells.card = r.area := by
  rw [cells, Finset.card_product, Nat.card_Ico, Nat.card_Ico]
  rfl

/-- The overlap is zero where a difference stops at zero, and then there is no common cell. -/
theorem card_inter_cells (r s : Rect) : (r.cells ∩ s.cells).card = r.overlapArea s := by
  rw [cells, cells, Finset.product_inter_product, Finset.Ico_inter_Ico, Finset.Ico_inter_Ico,
    Finset.card_product, Nat.card_Ico, Nat.card_Ico]
  rfl

theorem overlapArea_comm (r s : Rect) : r.overlapArea s = s.overlapArea r := by
  rw [← card_inter_cells, Finset.inter_comm, card_inter_cells]

theorem overlapArea_eq_zero_iff :
    r.overlapArea s = 0 ↔ ∀ x y, r.Covers x y → ¬ s.Covers x y := by
  rw [← card_inter_cells, Finset.card_eq_zero, ← Finset.disjoint_iff_inter_eq_empty,
    Finset.disjoint_left]
  simp only [mem_cells, Prod.forall]

theorem contains_iff_cells : r.Contains s ↔ s.cells ⊆ r.cells := by
  simp only [Finset.subset_iff, mem_cells, Prod.forall]
  exact ⟨fun h _ _ => h.covers, contains_of_covers⟩

/-! ## Tilings -/

/-- The pieces tile `r`: none of them reaches beyond it, and each of its cells is in one of
them. -/
structure TiledBy (r : Rect) (pieces : List Rect) : Prop where
  inside : ∀ q ∈ pieces, r.Contains q
  once : ∀ x y, r.Covers x y → pieces.countP (·.Covers x y) = 1

/-- No cell at all is in two pieces of a tiling. -/
theorem TiledBy.countP_le_one (h : r.TiledBy pieces) (x y : Nat) :
    pieces.countP (·.Covers x y) ≤ 1 := by
  by_cases hc : r.Covers x y
  · exact (h.once x y hc).le
  · have hnone : pieces.countP (·.Covers x y) = 0 :=
      List.countP_eq_zero.2 fun q hq hcovers =>
        hc ((h.inside q hq).covers (of_decide_eq_true hcovers))
    omega

/-- No two rectangles overlap exactly if no cell is in two of them. -/
theorem pairwise_overlapArea_iff :
    pieces.Pairwise (fun q s => q.overlapArea s = 0) ↔
      ∀ x y, pieces.countP (·.Covers x y) ≤ 1 := by
  induction pieces with
  | nil => simp
  | cons q rest ih =>
    rw [List.pairwise_cons, ih]
    simp only [overlapArea_eq_zero_iff, List.countP_cons, decide_eq_true_eq]
    constructor
    · intro h x y
      obtain ⟨hq, hrest⟩ := h
      split
      next hc =>
        have hnone : rest.countP (·.Covers x y) = 0 :=
          List.countP_eq_zero.2 fun s hs hc' => hq s hs x y hc (of_decide_eq_true hc')
        omega
      next => exact hrest x y
    · intro h
      refine ⟨fun s hs x y hc hc' => ?_, fun x y => Nat.le_trans (Nat.le_add_right _ _) (h x y)⟩
      have hone := h x y
      have hsome : 0 < rest.countP (·.Covers x y) :=
        List.countP_pos_iff.2 ⟨s, hs, decide_eq_true hc'⟩
      rw [if_pos hc] at hone
      omega

/-- How often the cells of `r` are covered comes to the areas of the rectangles inside it. -/
theorem sum_countP_covers (h : ∀ q ∈ pieces, r.Contains q) :
    ∑ c ∈ r.cells, pieces.countP (·.Covers c.1 c.2) = (pieces.map area).sum := by
  induction pieces with
  | nil => simp
  | cons q rest ih =>
    -- no cell of `q` is left out, since all of them are cells of `r`
    have hcells : r.cells.filter (fun c => q.Covers c.1 c.2) = q.cells := by
      ext c
      rw [Finset.mem_filter, mem_cells, mem_cells]
      exact and_iff_right_of_imp (h q List.mem_cons_self).covers
    have hrest := ih fun s hs => h s (List.mem_cons_of_mem _ hs)
    calc ∑ c ∈ r.cells, (q :: rest).countP (·.Covers c.1 c.2)
        = ∑ c ∈ r.cells, (rest.countP (·.Covers c.1 c.2) + if q.Covers c.1 c.2 then 1 else 0) := by
          simp only [List.countP_cons, decide_eq_true_eq]
      _ = (rest.map area).sum + q.area := by
          rw [Finset.sum_add_distrib, hrest, ← Finset.card_filter, hcells, card_cells]
      _ = ((q :: rest).map area).sum := by
          rw [List.map_cons, List.sum_cons, Nat.add_comm]

/-- A tiling is told by areas and overlaps. -/
theorem tiledBy_iff :
    r.TiledBy pieces ↔ (∀ q ∈ pieces, r.Contains q) ∧
      pieces.Pairwise (fun q s => q.overlapArea s = 0) ∧ (pieces.map area).sum = r.area := by
  have hcard : ∑ c ∈ r.cells, 1 = r.area := by rw [← Finset.card_eq_sum_ones, card_cells]
  constructor
  · intro h
    refine ⟨h.inside, pairwise_overlapArea_iff.2 h.countP_le_one, ?_⟩
    rw [← sum_countP_covers h.inside, ← hcard]
    exact Finset.sum_congr rfl fun c hc => h.once _ _ (mem_cells.1 hc)
  · intro h
    obtain ⟨hinside, hpairwise, harea⟩ := h
    have hle : ∀ c ∈ r.cells, pieces.countP (·.Covers c.1 c.2) ≤ 1 :=
      fun c _ => pairwise_overlapArea_iff.1 hpairwise c.1 c.2
    have hsum : ∑ c ∈ r.cells, pieces.countP (·.Covers c.1 c.2) = ∑ c ∈ r.cells, 1 := by
      rw [sum_countP_covers hinside, harea, hcard]
    -- equal sums of terms none of which is larger: the terms are equal
    have hone := (Finset.sum_eq_sum_iff_of_le hle).1 hsum
    exact ⟨hinside, fun x y hc => hone (x, y) (mem_cells.2 hc)⟩

/-! ## Pieces of a cut -/

/-- The pieces of `r` on both sides of a line: they tile it, and each has the cells on its
side. -/
structure DividedAlong (r : Rect) (axis : Axis) (position : Nat) (pieces : Halves Rect) : Prop where
  tiled : r.TiledBy pieces.toList
  covers : ∀ half x y,
    (pieces.part half).Covers x y ↔ r.Covers x y ∧ half.Has axis position x y

/-- The pieces of `r` in the quadrants around a point: they tile it, and each has the cells in its
quadrant. -/
structure DividedAround (r : Rect) (p : Point) (pieces : Quarters Rect) : Prop where
  tiled : r.TiledBy pieces.toList
  covers : ∀ side level x y, (pieces.part side level).Covers x y ↔
    r.Covers x y ∧ side.Has .x p.x x y ∧ level.Has .y p.y x y

theorem split_eq_ok_iff_dividedAlong {axis : Axis} {position : Coordinate}
    {pieces : Halves Rect} :
    r.split axis position = .ok pieces ↔ r.DividedAlong axis position.val pieces := by
  constructor
  · intro h
    have hcovers := covers_part_of_split h
    have hin (half : Half) : r.Contains (pieces.part half) :=
      contains_of_covers fun x y hc => ((hcovers half x y).1 hc).1
    refine ⟨⟨?_, fun x y hc => ?_⟩, hcovers⟩
    · simp only [Halves.toList, List.forall_mem_cons]
      exact ⟨hin .low, hin .high, List.forall_mem_nil _⟩
    · rw [countP_covers_split h, if_pos hc]
  · intro h
    have hpart (half : Half) := half?_eq_some_iff_covers.2 (h.covers half)
    exact split_eq_ok_iff.2 ⟨hpart .low, hpart .high⟩

theorem quadrants_eq_ok_iff_dividedAround {p : Point} {pieces : Quarters Rect} :
    r.quadrants p = .ok pieces ↔ r.DividedAround p pieces := by
  constructor
  · intro h
    have hcovers := covers_part_of_quadrants h
    have hin (side level : Half) : r.Contains (pieces.part side level) :=
      contains_of_covers fun x y hc => ((hcovers side level x y).1 hc).1
    refine ⟨⟨?_, fun x y hc => ?_⟩, hcovers⟩
    · simp only [Quarters.toList, List.forall_mem_cons]
      exact ⟨hin .low .low, hin .high .low, hin .high .high, hin .low .high, List.forall_mem_nil _⟩
    · rw [countP_covers_quadrants h, if_pos hc]
  · intro h
    have hpart (side level : Half) := quarter?_eq_some_iff_covers.2 (h.covers side level)
    exact quadrants_eq_ok_iff.2
      ⟨hpart .low .low, hpart .high .low, hpart .high .high, hpart .low .high⟩

/-- For any two rectangles, that is, for all corners that `ofCorners` accepts: the area is the
number of cells and fits 64 bits; containment is inclusion of the cells; the overlap is the number
of common cells, whichever rectangle comes first. A vertical or horizontal line or a point cuts the
rectangle exactly if it goes through the interior, into just those pieces that tile the rectangle
and lie on their sides of the line or the point. And rectangles of any number tile it exactly if
they lie inside it, no two overlap and the areas add up to its area. -/
theorem operations_tell_cells (a b : Rect) :
    (a.area = a.cells.card ∧ a.area < 18446744073709551616) ∧
    (a.Contains b ↔ b.cells ⊆ a.cells) ∧
    (a.overlapArea b = (a.cells ∩ b.cells).card ∧ a.overlapArea b = b.overlapArea a) ∧
    (∀ axis position,
      ((∃ pieces, a.split axis position = .ok pieces) ↔ a.CrossedAt axis position) ∧
      ∀ pieces, a.split axis position = .ok pieces ↔ a.DividedAlong axis position.val pieces) ∧
    (∀ p, ((∃ pieces, a.quadrants p = .ok pieces) ↔ p.StrictlyInside a) ∧
      ∀ pieces, a.quadrants p = .ok pieces ↔ a.DividedAround p pieces) ∧
    ∀ pieces, a.TiledBy pieces ↔ (∀ q ∈ pieces, a.Contains q) ∧
      pieces.Pairwise (fun q s => q.overlapArea s = 0) ∧ (pieces.map area).sum = a.area := by
  refine ⟨⟨(card_cells a).symm, a.size.area_lt⟩, contains_iff_cells,
    ⟨(card_inter_cells a b).symm, overlapArea_comm a b⟩, fun axis position => ?_, fun p => ?_,
    fun pieces => tiledBy_iff⟩
  · exact ⟨exists_split_iff, fun pieces => split_eq_ok_iff_dividedAlong⟩
  · exact ⟨exists_quadrants_iff, fun pieces => quadrants_eq_ok_iff_dividedAround⟩

/-- Four rectangles around a cell in the middle. No line goes between them from one edge to the
other, so they are not the pieces of any cuts. -/
theorem operations_tell_cells_pinwheel : ∃ r pieces,
    ofCorners .origin (.ofCoordinates 3 3) = .ok r ∧
      [(Point.origin, Point.ofCoordinates 2 1), (.ofCoordinates 2 0, .ofCoordinates 3 2),
        (.ofCoordinates 1 2, .ofCoordinates 3 3), (.ofCoordinates 0 1, .ofCoordinates 1 3),
        (.ofCoordinates 1 1, .ofCoordinates 2 2)].mapM (fun c => ofCorners c.1 c.2) = .ok pieces ∧
      (∀ q ∈ pieces, r.Contains q) ∧ pieces.Pairwise (fun q s => q.overlapArea s = 0) ∧
        (pieces.map area).sum = r.area ∧ r.TiledBy pieces := by
  obtain ⟨r, hr⟩ : ∃ r, ofCorners .origin (.ofCoordinates 3 3) = .ok r := ⟨_, rfl⟩
  obtain ⟨pieces, hpieces⟩ : ∃ pieces, [(Point.origin, Point.ofCoordinates 2 1),
      (.ofCoordinates 2 0, .ofCoordinates 3 2), (.ofCoordinates 1 2, .ofCoordinates 3 3),
      (.ofCoordinates 0 1, .ofCoordinates 1 3), (.ofCoordinates 1 1, .ofCoordinates 2 2)].mapM
        (fun c => ofCorners c.1 c.2) = .ok pieces := ⟨_, rfl⟩
  have h : (∀ q ∈ pieces, r.Contains q) ∧ pieces.Pairwise (fun q s => q.overlapArea s = 0) ∧
      (pieces.map area).sum = r.area := by
    cases hr
    cases hpieces
    decide
  obtain ⟨-, -, -, -, -, htiled⟩ := operations_tell_cells r r
  exact ⟨r, pieces, hr, hpieces, h.1, h.2.1, h.2.2, (htiled pieces).2 h⟩

end Rect

/-! ## Leaves of a block -/

namespace Block

variable {block : Block}

theorem tiled_iff_tiledBy : block.Tiled ↔ block.rect.TiledBy (block.leaves.map (·.rect)) := by
  constructor
  · intro h
    refine ⟨List.forall_mem_map.2 h.inside, fun x y hc => ?_⟩
    rw [List.countP_map]
    exact h.once x y hc
  · intro h
    refine ⟨List.forall_mem_map.1 h.inside, fun x y hc => ?_⟩
    have hone := h.once x y hc
    rwa [List.countP_map] at hone

/-- Whether the leaves of a block tile it is told by areas and overlaps. -/
theorem tiled_iff_areas :
    block.Tiled ↔ (∀ leaf ∈ block.leaves, block.rect.Contains leaf.rect) ∧
      block.leaves.Pairwise (fun l m => l.rect.overlapArea m.rect = 0) ∧
        (block.leaves.map (·.rect.area)).sum = block.area := by
  rw [tiled_iff_tiledBy, Rect.tiledBy_iff, List.forall_mem_map, List.pairwise_map, List.map_map]
  rfl

end Block

end Easel
