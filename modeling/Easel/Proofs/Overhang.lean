import Easel.Proofs.Overflow

/-!
# Leaves that reach beyond their blocks

A canvas keeps its blocks inside and looks no further than their rectangles. The instructions
keep the leaves of a block inside it as well, so as long as this holds of every block that is
put down, all numbers that are formed to draw the canvas stay in range, whatever is done to it
(`Built.inside`). A block that is put down by hand need not be like that, and the drawing is
stopped at the first leaf that reaches above the canvas. Rows are the only thing that is counted
without a look: columns beyond the right edge are left out, and a window is compared with the
source image before its edge is formed.

Main statement: `drawing_overflows_iff`.
-/

namespace Easel

/-- The leaves of the block lie inside it. -/
def Block.Enclosing (block : Block) : Prop :=
  ∀ leaf ∈ block.leaves, block.rect.Contains leaf.rect

namespace Canvas

/-- The canvas comes about by any work on it, in which all blocks that are put down have the
property. -/
inductive Built (P : Block → Prop) : Canvas → Prop
  | blank {size : Point} {background : Rgba} {c : Canvas}
      (h : Canvas.blank size background = .ok c) : Built P c
  | ofLayout {layout : Layout} {c : Canvas} (h : Canvas.ofLayout layout = .ok c) : Built P c
  | insert {c d : Canvas} {id : String} {block : Block} (hc : Built P c) (hblock : P block)
      (h : c.insert id block = .ok d) : Built P d
  | erase {c : Canvas} (hc : Built P c) (id : String) : Built P (c.erase id)
  | setSource {c d : Canvas} {picture : Picture} (hc : Built P c)
      (h : c.setSource picture = .ok d) : Built P d
  | instructions {c : Canvas} (hc : Built P c) (table : CostTable) (is : List Instruction) :
      Built P (is.foldl Interpreter.after (.ofCanvas c table)).canvas

/-- Leaves stay in their blocks if they are so when the blocks are put down. -/
theorem Built.inside {c : Canvas} (h : c.Built Block.Enclosing) :
    ∀ e ∈ c.blocks.entries, e.2.Enclosing := by
  induction h with
  | blank h => exact inside_of_blank h
  | ofLayout h => exact inside_of_ofLayout h
  | insert hc hblock h ih =>
    rw [blocks_insert h]
    intro e he
    rcases Registry.mem_of_mem_insert he with rfl | he
    · exact hblock
    · exact ih e he
  | erase hc id ih => exact fun e he => ih e (Registry.mem_of_mem_erase he)
  | setSource hc h ih =>
    rw [blocks_setSource h]
    exact ih
  | instructions hc table is ih =>
    exact Interpreter.forall_blocks_foldl_after Block.hereditary_inside
      (fun _ _ _ h hsize hnew => Block.inside_relocated h hsize hnew) ih is

end Canvas

/-- Rows are counted from the top and differences are exact: the ends of the span from the upper
edge of the canvas, and the edge of the window from that of the source image. -/
structure Leaf.CountsRows (leaf : Leaf) (c : Canvas) : Prop where
  top_add : ∀ {span : Span}, leaf.span c = .ok span →
    span.top + leaf.rect.topRight.y = c.height
  bottom_add : ∀ {span : Span}, leaf.span c = .ok span →
    span.bottom + leaf.rect.bottomLeft.y = c.height
  edge_add : ∀ {picture : Picture} {x y : Nat}, leaf.paint c = .ok (.window picture x y) →
    ∃ anchor, leaf.fill = .image anchor ∧ y + (anchor.y + leaf.rect.size.y) = picture.height

theorem Leaf.countsRows (leaf : Leaf) (c : Canvas) : leaf.CountsRows c where
  top_add := by
    intro span h
    obtain ⟨paint, -, htop, rfl⟩ := span_eq_ok_iff.1 h
    exact Nat.sub_add_cancel htop
  bottom_add := by
    intro span h
    obtain ⟨paint, -, htop, rfl⟩ := span_eq_ok_iff.1 h
    exact Nat.sub_add_cancel (Nat.le_trans (Nat.le_of_lt leaf.rect.y_lt) htop)
  edge_add := by
    intro picture x y h
    obtain ⟨anchor, hfill, -, ⟨-, hedge⟩, -, rfl⟩ := window_of_paint h
    exact ⟨anchor, hfill, Nat.sub_add_cancel hedge⟩

/-- The drawing of a canvas is stopped for two reasons only. One is that its leaves can be
painted but its frame cannot be held. The other is a leaf that reaches above the canvas, where
all leaves before can be painted and this one has all that it shows; no other difference falls
below zero. No leaf does that on a canvas where each block was put down with its leaves inside,
whatever has been done since. -/
theorem drawing_overflows_iff (c : Canvas) (threading : Threading) :
    (∀ kind, c.draw threading = .error (.overflow kind) ↔ kind = .subtract ∧ c.Overhung ∨
      kind = .capacity ∧ (∀ leaf ∈ c.leaves, leaf.Paintable c) ∧ ¬ Frame.Fits c.size) ∧
    (∀ leaf : Leaf, leaf.CountsRows c) ∧
    (c.Built Block.Enclosing → ¬ c.Overhung ∧ ∀ leaf ∈ c.leaves, leaf.DrawsInRange c) := by
  refine ⟨fun kind => Canvas.draw_eq_overflow_iff_overhung, fun leaf => leaf.countsRows c,
    fun hc => ?_⟩
  have hin := Canvas.contains_bounds_of_mem_leaves hc.inside
  exact ⟨Canvas.not_overhung hin, fun leaf hl => Canvas.drawsInRange (hin leaf hl)⟩

/-- A block inside the canvas is put down whose only leaf is one row taller than the canvas. -/
theorem drawing_overflows_over_tall_leaf : ∃ c,
    (do let c ← Canvas.blank (.ofCoordinates 2 2) .white
        let leaf ← Leaf.ofCorners .origin (.ofCoordinates 1 3) (.solid ⟨0, 0, 0, 255⟩)
        c.insert "1" (← Block.ofCorners .origin (.ofCoordinates 2 2) [leaf])) = .ok c ∧
      c.Built (fun _ => True) ∧ c.draw {} = .error (.overflow .subtract) := by
  obtain ⟨c, hc⟩ : ∃ c, Canvas.blank (.ofCoordinates 2 2) .white = .ok c := ⟨_, rfl⟩
  obtain ⟨leaf, hleaf⟩ : ∃ leaf,
    Leaf.ofCorners .origin (.ofCoordinates 1 3) (.solid ⟨0, 0, 0, 255⟩) = .ok leaf := ⟨_, rfl⟩
  obtain ⟨block, hblock⟩ : ∃ block,
    Block.ofCorners .origin (.ofCoordinates 2 2) [leaf] = .ok block := ⟨_, rfl⟩
  obtain ⟨d, hd⟩ : ∃ d, c.insert "1" block = .ok d := by
    cases hc
    cases hleaf
    cases hblock
    exact ⟨_, rfl⟩
  refine ⟨d, ?_, .insert (.blank hc) trivial hd, ?_⟩
  · simp only [bind_eq_ok_iff]
    exact ⟨c, hc, leaf, hleaf, block, hblock, hd⟩
  · cases hc
    cases hleaf
    cases hblock
    cases hd
    rfl

end Easel
