import Easel.Proofs.Board
import Easel.Proofs.Painting

/-!
# Instructions refine the board

A board that shows the blocks of a canvas goes on to show them: each kind of step is
taken by both (`Depicts.performs`), and neither is stuck where the other is not
(`Depicts.exists_performs`). For the second, content has to be movable. The leaves of
a run from a blank canvas are plain colours that lie in their blocks, so a swap can
fail only by a sum of two corners, and not at all on a canvas of at most `2 ^ 31`
cells on each side.

Main statement: `draw_refines_board`, the names, the rectangles and every pixel of
the picture are those of the board, for any run.
-/

namespace Easel

open Interpreter

theorem fillsAt_append (leaves leaves' : List Leaf) (x y : Nat) :
    fillsAt (leaves ++ leaves') x y = fillsAt leaves x y ++ fillsAt leaves' x y :=
  seenAt_append (·.fill) leaves leaves' x y

/-- Outside its rectangle a tiled block shows nothing. -/
theorem Block.Tiled.fillsAt_eq_nil {block : Block} (h : block.Tiled) {x y : Nat}
    (hc : ¬ block.rect.Covers x y) : fillsAt block.leaves x y = [] := by
  rw [← List.length_eq_zero_iff, length_fillsAt]
  exact h.countP_eq_zero hc

theorem map_pieceEntries {α β : Type} (f : α → β) (id : String) (pieces : List α) :
    (pieceEntries id pieces).map (fun e => (e.1, f e.2)) = pieceEntries id (pieces.map f) := by
  unfold pieceEntries
  rw [List.zipIdx_map, List.map_map, List.map_map]
  rfl

namespace Board.Depicts

variable {b : Board} {s : Interpreter} {size : Point}

theorem get? (h : b.Depicts s.canvas.blocks s.mergeCounter) {id : String} {block : Block}
    (hb : s.canvas.get? id = some block) : b.places.get? id = some block.rect := by
  rw [h.places, Registry.get?_map, show s.canvas.blocks.get? id = some block from hb]
  rfl

/-- Where the board goes on with a rectangle, the canvas has the block. -/
theorem exists_get? (h : b.Depicts s.canvas.blocks s.mergeCounter) {id : String}
    {f : Rect → Option Board} {b' : Board} (hb' : (b.places.get? id).bind f = some b') :
    ∃ block, s.canvas.get? id = some block ∧ f block.rect = some b' := by
  rw [h.places, Registry.get?_map, Option.bind_map] at hb'
  exact Option.bind_eq_some_iff.1 hb'

/-! ## One lemma for each kind of step -/

theorem colour (h : b.Depicts s.canvas.blocks s.mergeCounter) (hs : s.Sound size) {id : String}
    {block : Block} (c : Rgba) (hb : s.canvas.get? id = some block) :
    Board.Depicts { b with cells := b.filled block.rect c } (s.recoloured id c block).blocks
      (s.recoloured id c block).counter where
  places := by
    show b.places = (s.canvas.blocks.insert id _).map Block.rect
    rw [Registry.map_insert, ← h.places]
    exact (Registry.insert_eq_self (h.get? hb)).symm
  counter := h.counter
  shows k new hk x y hc := by
    replace hk : (s.canvas.blocks.insert id _).get? k = some new := hk
    show fillsAt new.leaves x y = [.solid (b.filled block.rect c x y)]
    rw [Registry.get?_insert] at hk
    unfold filled
    by_cases hid : k = id
    · rw [if_pos hid] at hk
      cases hk
      have hcov : block.rect.Covers x y := hc
      rw [if_pos hcov, Block.leaves, fillsAt_cons, if_pos hcov]
      rfl
    · rw [if_neg hid] at hk
      rw [if_neg fun hcov => hid (hs.eq_of_covers hb hk hcov hc)]
      exact h.shows k new hk x y hc

theorem cut (h : b.Depicts s.canvas.blocks s.mergeCounter) (hs : s.Sound size) {i : Instruction}
    {id : String} {block : Block} {pieces : List Block}
    (hi : i.cut? = some (id, pieces.length)) (hb : s.canvas.get? id = some block)
    (hp : block.Cut i pieces) :
    Board.Depicts
      { b with places := (b.places.erase id).insertAll (pieceEntries id (pieces.map Block.rect)) }
      (s.cutInto i.kind id block pieces).blocks (s.cutInto i.kind id block pieces).counter where
  places := by
    show _ = ((s.canvas.blocks.erase id).insertAll (pieceEntries id pieces)).map Block.rect
    rw [Registry.map_insertAll, Registry.map_erase, map_pieceEntries, ← h.places]
  counter := h.counter
  shows k new hk x y hc := by
    have hentries := (hs.clear.performs_cut hb (Instruction.le_four_of_cut? hi)).2
    have hmem := Registry.mem_of_get?_eq_some hk
    rw [show (s.cutInto i.kind id block pieces).blocks.entries = _ from hentries] at hmem
    rcases List.mem_append.1 hmem with hmem | hmem
    · exact h.shows k new (Registry.get?_of_mem (Registry.mem_of_mem_erase hmem)) x y hc
    · have hpiece : new ∈ pieces := mem_of_mem_pieceEntries hmem
      rw [hp.fillsAt new hpiece x y hc]
      exact h.shows id block hb x y ((hp.contains new hpiece).covers hc)

/-- Moved content shows at a cell what the board has at the place before. -/
theorem relocated (h : b.Depicts s.canvas.blocks s.mergeCounter) {id : String}
    {block new : Block} {target : Rect} (hb : s.canvas.get? id = some block)
    (hsize : block.size = target.size) (hnew : block.relocated target = .ok new) {x y : Nat}
    (hc : target.Covers x y) :
    fillsAt new.leaves x y = [.solid (b.cells
      (block.rect.bottomLeft.x + (x - target.bottomLeft.x))
      (block.rect.bottomLeft.y + (y - target.bottomLeft.y)))] := by
  obtain ⟨x', y', hc', hx, hy⟩ := (Rect.shifted_of_size_eq hsize).exists_covers hc
  have hmoved := fillsAt_of_moved (Block.moved_of_relocated hsize hnew) hx hy
  rw [h.shows id block hb x' y' hc', List.forall₂_cons_left_iff] at hmoved
  obtain ⟨fill, fills, hfill, hfills, heq⟩ := hmoved
  rw [List.forall₂_nil_left_iff] at hfills
  cases hfill
  have hplace : block.rect.bottomLeft.x + (x - target.bottomLeft.x) = x' ∧
      block.rect.bottomLeft.y + (y - target.bottomLeft.y) = y' := by
    simp only [Rect.Covers] at hc
    omega
  rw [heq, hfills, hplace.1, hplace.2]

theorem swap (h : b.Depicts s.canvas.blocks s.mergeCounter) (hs : s.Sound size)
    {id₁ id₂ : String} {block₁ block₂ new₁ new₂ : Block}
    (hb₁ : s.canvas.get? id₁ = some block₁) (hb₂ : s.canvas.get? id₂ = some block₂)
    (hsize : block₁.size = block₂.size) (hnew₁ : block₂.relocated block₁.rect = .ok new₁)
    (hnew₂ : block₁.relocated block₂.rect = .ok new₂) :
    Board.Depicts { b with cells := b.exchanged block₁.rect block₂.rect }
      (s.swapped id₁ id₂ block₁ new₁ new₂).blocks
      (s.swapped id₁ id₂ block₁ new₁ new₂).counter where
  places := by
    show b.places = ((s.canvas.blocks.insert id₁ new₁).insert id₂ new₂).map Block.rect
    rw [Registry.map_insert, Registry.map_insert, Block.rect_of_relocated hnew₁,
      Block.rect_of_relocated hnew₂, ← h.places, Registry.insert_eq_self (h.get? hb₁),
      Registry.insert_eq_self (h.get? hb₂)]
  counter := h.counter
  shows k new hk x y hc := by
    replace hk : ((s.canvas.blocks.insert id₁ new₁).insert id₂ new₂).get? k = some new := hk
    show fillsAt new.leaves x y = [.solid (b.exchanged block₁.rect block₂.rect x y)]
    rw [Registry.get?_insert, Registry.get?_insert] at hk
    unfold exchanged
    by_cases hid₂ : k = id₂
    · rw [if_pos hid₂] at hk
      cases hk
      rw [Block.rect_of_relocated hnew₂] at hc
      rw [h.relocated hb₁ hsize hnew₂ hc, if_pos hc]
      by_cases hc₁ : block₁.rect.Covers x y
      · -- the two names are one, and so are the rectangles
        obtain rfl := hs.eq_of_covers hb₁ hb₂ hc₁ hc
        rw [hb₁] at hb₂
        cases hb₂
        rw [if_pos hc₁]
      · rw [if_neg hc₁]
    · rw [if_neg hid₂] at hk
      by_cases hid₁ : k = id₁
      · rw [if_pos hid₁] at hk
        cases hk
        rw [Block.rect_of_relocated hnew₁] at hc
        rw [h.relocated hb₂ hsize.symm hnew₁ hc, if_pos hc]
      · rw [if_neg hid₁] at hk
        rw [if_neg fun hc₁ => hid₁ (hs.eq_of_covers hb₁ hk hc₁ hc),
          if_neg fun hc₂ => hid₂ (hs.eq_of_covers hb₂ hk hc₂ hc)]
        exact h.shows k new hk x y hc

theorem merge (h : b.Depicts s.canvas.blocks s.mergeCounter) (hs : s.Sound size)
    {id₁ id₂ : String} {block₁ block₂ : Block} (hb₁ : s.canvas.get? id₁ = some block₁)
    (hb₂ : s.canvas.get? id₂ = some block₂)
    (haligned : block₁.rect.Stacked block₂.rect ∨ block₁.rect.SideBySide block₂.rect) :
    Board.Depicts
      { b with
        places := ((b.places.erase id₁).erase id₂).insert (toString (b.counter + 1))
          (block₁.rect.hull block₂.rect)
        counter := b.counter + 1 }
      (s.merged id₁ id₂ block₁ block₂).blocks (s.merged id₁ id₂ block₁ block₂).counter where
  places := by
    show _ = (((s.canvas.blocks.erase id₁).erase id₂).insert _ _).map Block.rect
    rw [Registry.map_insert, Registry.map_erase, Registry.map_erase, ← h.places, ← h.counter]
    rfl
  counter := by
    show b.counter + 1 = s.mergeCounter + 1
    rw [h.counter]
  shows k new hk x y hc := by
    replace hk : (((s.canvas.blocks.erase id₁).erase id₂).insert _ _).get? k = some new := hk
    show fillsAt new.leaves x y = [.solid (b.cells x y)]
    rw [Registry.get?_insert] at hk
    split at hk
    · cases hk
      have ht₁ := hs.tessellated.tiled_of_get? hb₁
      have ht₂ := hs.tessellated.tiled_of_get? hb₂
      show fillsAt (block₁.leaves ++ block₂.leaves) x y = _
      rw [fillsAt_append]
      rcases (Rect.covers_hull haligned x y).1 hc with hc | hc
      · rw [h.shows id₁ block₁ hb₁ x y hc,
          ht₂.fillsAt_eq_nil (Rect.not_covers_of_aligned haligned hc)]
        rfl
      · have hn : ¬ block₁.rect.Covers x y := fun h => Rect.not_covers_of_aligned haligned h hc
        rw [ht₁.fillsAt_eq_nil hn, h.shows id₂ block₂ hb₂ x y hc]
        rfl
    · have hmem := Registry.mem_of_mem_erase
        (Registry.mem_of_mem_erase (Registry.mem_of_get?_eq_some hk))
      exact h.shows k new (Registry.get?_of_mem hmem) x y hc

/-! ## Steps -/

/-- A step of the canvas is a step of the board. -/
theorem performs (h : b.Depicts s.canvas.blocks s.mergeCounter) (hs : s.Sound size)
    {i : Instruction} {o : Outcome} (hp : s.Performs i o) :
    ∃ b', b.step i = some b' ∧ b'.Depicts o.blocks o.counter := by
  cases hp with
  | inert hi =>
    refine ⟨b, ?_, h⟩
    cases i <;> first | rfl | exact absurd hi id
  | @colour id c block hb =>
    refine ⟨_, ?_, h.colour hs c hb⟩
    show (b.places.get? id).bind _ = _
    rw [h.get? hb]
    rfl
  | cut hi hb hp =>
    refine ⟨_, ?_, h.cut hs hi hb hp⟩
    rw [step_of_cut? hi, h.get? hb, Option.bind_some, hp.pieces?_rect]
    rfl
  | @swap id₁ id₂ block₁ block₂ new₁ new₂ hb₁ hb₂ hsize hnew₁ hnew₂ =>
    refine ⟨_, ?_, h.swap hs hb₁ hb₂ hsize hnew₁ hnew₂⟩
    show (b.places.get? id₁).bind (fun r => (b.places.get? id₂).bind _) = _
    rw [h.get? hb₁, h.get? hb₂]
    exact if_pos hsize
  | @merge id₁ id₂ block₁ block₂ hb₁ hb₂ haligned hcounter =>
    refine ⟨_, ?_, h.merge hs hb₁ hb₂ haligned⟩
    show (b.places.get? id₁).bind (fun r => (b.places.get? id₂).bind _) = _
    rw [h.get? hb₁, h.get? hb₂]
    exact if_pos ⟨haligned, by rw [h.counter]; exact hcounter⟩

/-- The leaves of a depicted block are plain colours. -/
theorem exists_solid (h : b.Depicts s.canvas.blocks s.mergeCounter) (hs : s.Sound size)
    {id : String} {block : Block} (hb : s.canvas.get? id = some block) {leaf : Leaf}
    (hl : leaf ∈ block.leaves) : ∃ c, leaf.fill = .solid c := by
  have hcell := leaf.rect.covers_bottomLeft
  have hc := ((hs.tessellated.tiled_of_get? hb).inside leaf hl).covers hcell
  have hfill : leaf.fill ∈ fillsAt block.leaves leaf.rect.bottomLeft.x leaf.rect.bottomLeft.y :=
    List.mem_map_of_mem (List.mem_filter.2 ⟨hl, decide_eq_true hcell⟩)
  rw [h.shows id block hb _ _ hc, List.mem_singleton] at hfill
  exact ⟨_, hfill⟩

/-- The content of a depicted block can be moved to the place of any other one. -/
theorem exists_relocated (h : b.Depicts s.canvas.blocks s.mergeCounter) (hs : s.Sound size)
    (hx : size.x ≤ 2147483648) (hy : size.y ≤ 2147483648) {id id' : String}
    {block block' : Block} (hb : s.canvas.get? id = some block)
    (hb' : s.canvas.get? id' = some block') :
    ∃ new, block.relocated block'.rect = .ok new := by
  rw [← hs.size_eq] at hx hy
  exact Block.exists_relocated_iff.2 <| Block.not_stuck (hs.tessellated.tiled_of_get? hb).inside
    (fun leaf hl => h.exists_solid hs hb hl) <|
      Canvas.not_overreaches (Canvas.contains_bounds_of_get? hb)
        (Canvas.contains_bounds_of_get? hb') hx hy

/-- A step of the board is a step of the canvas. -/
theorem exists_performs (h : b.Depicts s.canvas.blocks s.mergeCounter) (hs : s.Sound size)
    (hx : size.x ≤ 2147483648) (hy : size.y ≤ 2147483648) {i : Instruction} {b' : Board}
    (hb' : b.step i = some b') : ∃ o, s.Performs i o := by
  have hcut : ∀ {id : String} {n : Nat}, i.cut? = some (id, n) → ∃ o, s.Performs i o := by
    intro id n hi
    rw [step_of_cut? hi] at hb'
    obtain ⟨block, hb, hb'⟩ := h.exists_get? hb'
    obtain ⟨rects, hrects, -⟩ := Option.bind_eq_some_iff.1 hb'
    obtain ⟨pieces, hp⟩ := Block.exists_cut_of_pieces? hrects
    obtain rfl := hp.length hi
    exact ⟨_, .cut hi hb hp⟩
  cases i with
  | blank => exact ⟨_, .inert trivial⟩
  | comment text => exact ⟨_, .inert trivial⟩
  | colour id c =>
    obtain ⟨block, hb, -⟩ := h.exists_get? hb'
    exact ⟨_, .colour hb⟩
  | pointCut id p => exact hcut rfl
  | verticalCut id x => exact hcut rfl
  | horizontalCut id y => exact hcut rfl
  | swap id₁ id₂ =>
    obtain ⟨block₁, hb₁, hb'⟩ := h.exists_get? hb'
    obtain ⟨block₂, hb₂, hb'⟩ := h.exists_get? hb'
    obtain ⟨hsize, -⟩ := Option.ite_none_right_eq_some.1 hb'
    obtain ⟨new₁, hnew₁⟩ := h.exists_relocated hs hx hy hb₂ hb₁
    obtain ⟨new₂, hnew₂⟩ := h.exists_relocated hs hx hy hb₁ hb₂
    exact ⟨_, .swap hb₁ hb₂ hsize hnew₁ hnew₂⟩
  | merge id₁ id₂ =>
    obtain ⟨block₁, hb₁, hb'⟩ := h.exists_get? hb'
    obtain ⟨block₂, hb₂, hb'⟩ := h.exists_get? hb'
    obtain ⟨⟨haligned, hcounter⟩, -⟩ := Option.ite_none_right_eq_some.1 hb'
    rw [h.counter] at hcounter
    exact ⟨_, .merge hb₁ hb₂ haligned hcounter⟩

/-! ## Runs -/

theorem after (h : b.Depicts s.canvas.blocks s.mergeCounter) (hs : s.Sound size)
    (hx : size.x ≤ 2147483648) (hy : size.y ≤ 2147483648) (i : Instruction) :
    (b.after i).Depicts (s.after i).canvas.blocks (s.after i).mergeCounter := by
  cases ho : s.outcome i with
  | error e =>
    have hstep : b.step i = none := by
      cases hb' : b.step i with
      | none => rfl
      | some b' =>
        obtain ⟨o, hp⟩ := h.exists_performs hs hx hy hb'
        rw [hp.outcome] at ho
        cases ho
    rw [after_of_outcome_error ho, Board.after, hstep]
    exact h
  | ok o =>
    have hp := performs_of_outcome ho
    obtain ⟨b', hstep, hb'⟩ := h.performs hs hp
    obtain ⟨hd, hc⟩ := after_of_performs hp
    rw [hd.blocks, hc, Board.after, hstep]
    exact hb'

theorem foldl_after (h : b.Depicts s.canvas.blocks s.mergeCounter) (hs : s.Sound size)
    (hx : size.x ≤ 2147483648) (hy : size.y ≤ 2147483648) (is : List Instruction) :
    (is.foldl Board.after b).Depicts (is.foldl Interpreter.after s).canvas.blocks
      (is.foldl Interpreter.after s).mergeCounter := by
  induction is generalizing b s with
  | nil => exact h
  | cons i is ih => exact ih (h.after hs hx hy i) (hs.foldl_after [i])

end Board.Depicts

/-! ## Pictures -/

/-- Over a cell lies one leaf for each block that covers it. -/
theorem fillsAt_flatMap_leaves (entries : List (String × Block)) {f : Fill} {x y : Nat}
    (hshown : ∀ e ∈ entries, e.2.rect.Covers x y → fillsAt e.2.leaves x y = [f])
    (hhidden : ∀ e ∈ entries, ¬ e.2.rect.Covers x y → fillsAt e.2.leaves x y = []) :
    fillsAt ((entries.map (·.2)).flatMap Block.leaves) x y
      = List.replicate (entries.countP (·.2.rect.Covers x y)) f := by
  induction entries with
  | nil => rfl
  | cons e es ih =>
    have hrest := ih (fun e he => hshown e (List.mem_cons_of_mem _ he))
      fun e he => hhidden e (List.mem_cons_of_mem _ he)
    rw [List.map_cons, List.flatMap_cons, fillsAt_append, hrest, List.countP_cons]
    by_cases hc : e.2.rect.Covers x y
    · rw [hshown e List.mem_cons_self hc, if_pos (decide_eq_true hc), List.replicate_succ]
      rfl
    · rw [hhidden e List.mem_cons_self hc, if_neg (by simpa using hc)]
      rfl

namespace Board.Depicts

variable {b : Board} {s : Interpreter} {size : Point}

theorem exists_block_of_mem_leaves {c : Canvas} {leaf : Leaf} (hl : leaf ∈ c.leaves) :
    ∃ id block, c.get? id = some block ∧ leaf ∈ block.leaves := by
  obtain ⟨block, hb, hl⟩ := List.mem_flatMap.1 hl
  obtain ⟨e, he, rfl⟩ := List.mem_map.1 hb
  exact ⟨e.1, e.2, Registry.get?_of_mem he, hl⟩

/-- Over each cell of the canvas lies one leaf, of the colour of the cell. -/
theorem fillsAt_leaves (h : b.Depicts s.canvas.blocks s.mergeCounter) (hs : s.Sound size)
    {x y : Nat} (hx : x < size.x) (hy : y < size.y) :
    fillsAt s.canvas.leaves x y = [.solid (b.cells x y)] := by
  have hall := fillsAt_flatMap_leaves s.canvas.blocks.entries
    (fun e he hc => h.shows e.1 e.2 (Registry.get?_of_mem he) x y hc)
    (fun e he hc => (hs.tessellated.tiled e he).fillsAt_eq_nil hc)
  rw [hs.tessellated.once x y hx hy] at hall
  exact hall

/-- The picture of a canvas is that of its board. -/
theorem draw (h : b.Depicts s.canvas.blocks s.mergeCounter) (hs : s.Sound size)
    {threading : Threading} (hthreads : ¬ (threading.parallel ∧ threading.threads = some 0)) :
    if Frame.Fits size then
      ∃ f, s.canvas.draw threading = .ok f ∧ f.width = size.x ∧ f.height = size.y ∧
        ∀ x row, x < size.x → row < size.y →
          f.pixel? x row = some (b.cells x (size.y - 1 - row))
    else
      s.canvas.draw threading = .error (.overflow .capacity) := by
  have hin : ∀ leaf ∈ s.canvas.leaves, s.canvas.bounds.Contains leaf.rect := by
    intro leaf hl
    obtain ⟨id, block, hb, hl⟩ := exists_block_of_mem_leaves hl
    exact (Canvas.contains_bounds_of_get? hb).trans
      ((hs.tessellated.tiled_of_get? hb).inside leaf hl)
  have hsolid : ∀ leaf ∈ s.canvas.leaves, ∃ colour, leaf.fill = .solid colour := by
    intro leaf hl
    obtain ⟨id, block, hb, hl⟩ := exists_block_of_mem_leaves hl
    exact h.exists_solid hs hb hl
  obtain rfl := hs.size_eq
  split
  next hfits =>
    obtain ⟨f, hf, hwidth, hheight, hpixel⟩ := Canvas.exists_draw hin hsolid hfits hthreads
    refine ⟨f, hf, hwidth, hheight, fun x row hx hrow => ?_⟩
    rw [hpixel x row hx hrow]
    have hcell : s.canvas.height - 1 - row < s.canvas.size.y := by
      have hpos := s.canvas.height_pos
      show s.canvas.size.y - 1 - row < _
      omega
    rw [h.fillsAt_leaves hs hx hcell]
    rfl
  next hfits => exact Canvas.draw_of_not_fits hin (Canvas.readable_of_solid hsolid _) hfits

/-- A blank canvas shows the blank board. -/
theorem ofCanvas {c : Canvas} {background : Rgba} (table : CostTable) (hpos : size.Positive)
    (hsize : c.size = size)
    (hentries : c.blocks.entries
      = [(Canvas.rootId, .simple { rect := c.bounds, fill := .solid background })]) :
    (Board.blank size hpos background).Depicts (Interpreter.ofCanvas c table).canvas.blocks
      (Interpreter.ofCanvas c table).mergeCounter where
  places := by
    subst hsize
    refine Registry.ext ?_
    show _ = c.blocks.entries.map fun e => (e.1, e.2.rect)
    rw [hentries]
    rfl
  counter := by
    show 0 = c.maxNumericId.getD 0
    rw [Canvas.maxNumericId, Canvas.ids, Registry.names, hentries]
    show 0 = ([Canvas.rootId].filterMap (Number.ofText? 18446744073709551616)).max?.getD 0
    decide
  shows id block hb x y hc := by
    have hmem := Registry.mem_of_get?_eq_some hb
    rw [show (Interpreter.ofCanvas c table).canvas.blocks.entries = _ from hentries,
      List.mem_singleton] at hmem
    cases hmem
    have hcov : c.bounds.Covers x y := hc
    show fillsAt [_] x y = _
    rw [fillsAt_cons, if_pos hcov]
    rfl

end Board.Depicts

/-- Instructions refine the board. On a canvas of at most `2 ^ 31` cells on each side
that began blank, any run leaves the names, rectangles and counter of the board, an
instruction is carried out if and only if the board can take the step (as long as the
sum of all prices stays in range), and the picture has the colours of the grid, upside
down. The picture is refused only where its bytes reach `2 ^ 63`. -/
theorem draw_refines_board {size : Point} (hpos : size.Positive) (hx : size.x ≤ 2147483648)
    (hy : size.y ≤ 2147483648) (background : Rgba) :
    ∃ c, Canvas.blank size background = .ok c ∧
      ∀ (table : CostTable) (is : List Instruction),
        let s := is.foldl Interpreter.after (.ofCanvas c table)
        let b := is.foldl Board.after (.blank size hpos background)
        s.canvas.ids = b.places.names ∧ s.canvas.blocks.map Block.rect = b.places ∧
          s.mergeCounter = b.counter ∧
          (∀ i, (∀ t, Edit.apply i s ≠ .error (.overflow .add) t) →
            ((∃ cost t, Edit.apply i s = .ok cost t) ↔ (b.step i).isSome)) ∧
          ∀ threading : Threading, ¬ (threading.parallel ∧ threading.threads = some 0) →
            if Frame.Fits size then
              ∃ f, s.canvas.draw threading = .ok f ∧ f.width = size.x ∧ f.height = size.y ∧
                ∀ x row, x < size.x → row < size.y →
                  f.pixel? x row = some (b.cells x (size.y - 1 - row))
            else
              s.canvas.draw threading = .error (.overflow .capacity) := by
  obtain ⟨c, hc, hsize, -, hentries⟩ := Canvas.exists_blank hpos background
  refine ⟨c, hc, fun table is => ?_⟩
  have hstart := sound_ofCanvas table hsize ⟨_, hentries⟩
  have hs := hstart.foldl_after is
  have hd := (Board.Depicts.ofCanvas table hpos hsize hentries).foldl_after hstart hx hy is
  refine ⟨?_, hd.places.symm, hd.counter.symm, fun i hsum => ?_, fun threading hthreads => ?_⟩
  · rw [hd.places, Registry.names_map]
    rfl
  · constructor
    · intro h
      obtain ⟨cost, t, ht⟩ := h
      obtain ⟨o, hp, -⟩ := performs_of_apply ht
      obtain ⟨b', hb', -⟩ := hd.performs hs hp
      rw [hb']
      rfl
    · intro hstep
      obtain ⟨b', hb'⟩ := Option.isSome_iff_exists.1 hstep
      obtain ⟨o, hp⟩ := hd.exists_performs hs hx hy hb'
      obtain ⟨d, -, hok | ⟨-, hover⟩⟩ := Edit.apply_of_outcome_ok hp.outcome
      · exact ⟨_, _, hok⟩
      · exact absurd hover (hsum _)
  · exact hd.draw hs hthreads

theorem draw_refines_board_swapped : ∃ c f, Canvas.blank (.ofCoordinates 4 2) .white = .ok c ∧
    ([.verticalCut "0" 2, .colour "0.0" .transparent, .swap "0.0" "0.1"].foldl Interpreter.after
      (.ofCanvas c .legacy)).canvas.draw {} = .ok f ∧
        f.pixel? 0 1 = some .white ∧ f.pixel? 3 0 = some .transparent := by
  obtain ⟨c, hc, h⟩ := draw_refines_board
    (show Point.Positive (.ofCoordinates 4 2) from ⟨by decide, by decide⟩) (by decide) (by decide)
    .white
  obtain ⟨-, -, -, -, hdraw⟩ := h .legacy
    [.verticalCut "0" 2, .colour "0.0" .transparent, .swap "0.0" "0.1"]
  have hframe := hdraw {} (by decide)
  rw [if_pos (by decide)] at hframe
  obtain ⟨f, hf, -, -, hpixel⟩ := hframe
  refine ⟨c, f, hc, hf, ?_, ?_⟩
  · rw [hpixel 0 1 (by decide) (by decide)]
    decide
  · rw [hpixel 3 0 (by decide) (by decide)]
    decide

/-- Each side of the canvas may be below `2 ^ 31`, and yet its picture is too large to
be held. -/
theorem draw_blank_overflows : ∃ c,
    Canvas.blank (.ofCoordinates 2147483647 2147483647) .white = .ok c ∧
      c.draw {} = .error (.overflow .capacity) :=
  ⟨_, rfl, rfl⟩

end Easel
