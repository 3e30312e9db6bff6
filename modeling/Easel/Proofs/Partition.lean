import Easel.Proofs.Names

/-!
# The canvas stays partitioned

Nothing in the type of a canvas says that its blocks, or the leaves of a block,
tile anything. It is the instructions that keep it so: `Block.Tiled` is the
invariant of one block, `Tessellated` that of all blocks together.

Every step takes some entries away and puts others in their place. It is enough
that the new blocks are tiled and share out the cells of the old ones
(`Tessellated.replace`); the order of the entries does not matter for it. The names
do matter, since a block under a name that is taken would remove a third one, so the
invariant of `Names.lean` is carried along.

Main statement: `partitioned_foldl_after`, a canvas that began blank is an exact
partition after any instructions.
-/

namespace Easel

/-! ## Blocks -/

namespace Block

/-- The leaves of a block tile its rectangle. -/
structure Tiled (block : Block) : Prop where
  inside : ∀ leaf ∈ block.leaves, block.rect.Contains leaf.rect
  once : ∀ x y, block.rect.Covers x y → block.leaves.countP (·.rect.Covers x y) = 1

theorem Tiled.leaves_ne_nil {block : Block} (h : block.Tiled) : block.leaves ≠ [] := by
  intro hnil
  have hone := h.once _ _ block.rect.covers_bottomLeft
  rw [hnil, List.countP_nil] at hone
  cases hone

/-- One leaf tiles itself. -/
theorem tiled_simple (leaf : Leaf) : (simple leaf).Tiled where
  inside l hl := by
    rw [List.mem_singleton.1 hl]
    exact Rect.Contains.refl _
  once x y hc := by
    have hcov : leaf.rect.Covers x y := hc
    simp only [leaves, List.countP_cons, List.countP_nil, hcov, decide_true, if_true]

/-- Leaves inside a block have their parts inside the part of the block. -/
theorem inside_half? {block piece : Block} {half : Half} {axis : Axis} {position : Coordinate}
    (h : ∀ leaf ∈ block.leaves, block.rect.Contains leaf.rect)
    (hp : block.half? half axis position = some piece) :
    ∀ leaf ∈ piece.leaves, piece.rect.Contains leaf.rect := by
  intro leaf hl
  rw [leaves_half? hp] at hl
  obtain ⟨whole, hw, hleaf⟩ := List.mem_filterMap.1 hl
  obtain ⟨q, hq, hin⟩ := (h whole hw).half? (Leaf.half?_eq_some_iff.1 hleaf).1
  rw [rect_half? hp] at hq
  cases hq
  exact hin

/-- Leaves inside a block are moved inside the rectangle that the block is moved to. -/
theorem inside_relocated {block new : Block} {target : Rect}
    (h : ∀ leaf ∈ block.leaves, block.rect.Contains leaf.rect) (hsize : block.size = target.size)
    (hnew : block.relocated target = .ok new) :
    ∀ leaf ∈ new.leaves, new.rect.Contains leaf.rect := by
  intro leaf hl
  obtain ⟨old, hold, hm⟩ := exists_of_forall₂ (moved_of_relocated hsize hnew) hl
  rw [rect_of_relocated hnew]
  exact (Rect.shifted_of_size_eq hsize).contains hm.rect (h old hold)

theorem inside_hull {block₁ block₂ : Block}
    (h₁ : ∀ leaf ∈ block₁.leaves, block₁.rect.Contains leaf.rect)
    (h₂ : ∀ leaf ∈ block₂.leaves, block₂.rect.Contains leaf.rect) :
    ∀ leaf ∈ block₁.leaves ++ block₂.leaves,
      (block₁.rect.hull block₂.rect).Contains leaf.rect := by
  intro leaf hl
  rcases List.mem_append.1 hl with hl | hl
  · exact (Rect.hull_contains_left _ _).trans (h₁ leaf hl)
  · exact (Rect.hull_contains_right _ _).trans (h₂ leaf hl)

/-- The parts of the leaves tile the part of the block. -/
theorem Tiled.half? {block piece : Block} {half : Half} {axis : Axis} {position : Coordinate}
    (h : block.Tiled) (hp : block.half? half axis position = some piece) : piece.Tiled where
  inside := inside_half? h.inside hp
  once x y hc := by
    obtain ⟨hcov, hhas⟩ := (Rect.covers_half? (rect_half? hp) x y).1 hc
    rw [leaves_half? hp, ← length_fillsAt, fillsAt_filterMap_half?, if_pos hhas, length_fillsAt]
    exact h.once x y hcov

theorem Cut.tiled {block : Block} {i : Instruction} {pieces : List Block}
    (h : block.Cut i pieces) (ht : block.Tiled) : ∀ piece ∈ pieces, piece.Tiled :=
  h.induction (P := Tiled) ht fun _ _ _ _ _ hb hp => hb.half? hp

/-- Content that moves as a whole tiles the rectangle it moves to. -/
theorem Tiled.relocated {block new : Block} {target : Rect} (h : block.Tiled)
    (hsize : block.size = target.size) (hnew : block.relocated target = .ok new) : new.Tiled := by
  refine ⟨inside_relocated h.inside hsize hnew, fun x y hc => ?_⟩
  rw [rect_of_relocated hnew] at hc
  obtain ⟨x', y', hc', hx, hy⟩ := (Rect.shifted_of_size_eq hsize).exists_covers hc
  rw [← length_fillsAt, ← (fillsAt_of_moved (moved_of_relocated hsize hnew) hx hy).length_eq,
    length_fillsAt]
  exact h.once x' y' hc'

/-- No leaf reaches beyond its block. -/
theorem Tiled.countP_eq_zero {block : Block} (h : block.Tiled) {x y : Nat}
    (hc : ¬ block.rect.Covers x y) : block.leaves.countP (·.rect.Covers x y) = 0 := by
  refine List.countP_eq_zero.2 fun leaf hl => ?_
  simp only [decide_eq_true_eq]
  exact fun hleaf => hc ((h.inside leaf hl).covers hleaf)

/-- Two tiled blocks that are aligned tile their union together. -/
theorem Tiled.hull {block₁ block₂ : Block} (h₁ : block₁.Tiled) (h₂ : block₂.Tiled)
    (haligned : block₁.rect.Stacked block₂.rect ∨ block₁.rect.SideBySide block₂.rect) :
    (complex (block₁.rect.hull block₂.rect) (block₁.leaves ++ block₂.leaves)).Tiled := by
  refine ⟨inside_hull h₁.inside h₂.inside, fun x y hc => ?_⟩
  show (block₁.leaves ++ block₂.leaves).countP (·.rect.Covers x y) = 1
  rw [List.countP_append]
  rcases (Rect.covers_hull haligned x y).1 hc with hc | hc
  · rw [h₁.once x y hc, h₂.countP_eq_zero (Rect.not_covers_of_aligned haligned hc)]
  · have hn : ¬ block₁.rect.Covers x y := fun h => Rect.not_covers_of_aligned haligned h hc
    rw [h₁.countP_eq_zero hn, h₂.once x y hc]

end Block

/-! ## All blocks together -/

/-- Tiled blocks that cover each cell of a canvas of the given size once. -/
structure Tessellated (size : Point) (entries : List (String × Block)) : Prop where
  tiled : ∀ e ∈ entries, e.2.Tiled
  once : ∀ x y, x < size.x → y < size.y → entries.countP (·.2.rect.Covers x y) = 1

namespace Tessellated

variable {size : Point}

/-- Entries give way to others that share out their cells. -/
theorem replace {entries entries' rest : List (String × Block)} (olds news : List (String × Block))
    (h : Tessellated size entries) (hold : entries.Perm (olds ++ rest))
    (hnew : entries'.Perm (news ++ rest)) (htiled : ∀ e ∈ news, e.2.Tiled)
    (hcount : ∀ x y, news.countP (·.2.rect.Covers x y) = olds.countP (·.2.rect.Covers x y)) :
    Tessellated size entries' where
  tiled e he := by
    rcases List.mem_append.1 (hnew.mem_iff.1 he) with he | he
    · exact htiled e he
    · exact h.tiled e (hold.mem_iff.2 (List.mem_append_right _ he))
  once x y hx hy := by
    rw [hnew.countP_eq, List.countP_append, hcount, ← List.countP_append, ← hold.countP_eq]
    exact h.once x y hx hy

/-- A block gives way to one with the same rectangle. -/
theorem insert {blocks : Registry Block} {id : String} {old new : Block}
    (h : Tessellated size blocks.entries) (hold : blocks.get? id = some old)
    (hrect : new.rect = old.rect) (htiled : new.Tiled) :
    Tessellated size (blocks.insert id new).entries := by
  refine h.replace [(id, old)] [(id, new)] (Registry.perm_erase hold)
    (Registry.perm_insert blocks id new) ?_ ?_
  · intro e he
    rw [List.mem_singleton.1 he]
    exact htiled
  · intro x y
    simp only [List.countP_cons, List.countP_nil, hrect]

theorem tiled_of_get? {blocks : Registry Block} {id : String} {block : Block}
    (h : Tessellated size blocks.entries) (hb : blocks.get? id = some block) : block.Tiled :=
  h.tiled _ (Registry.mem_of_get?_eq_some hb)

end Tessellated

/-- An aligned pair of blocks has two names. -/
theorem get?_erase_of_aligned {blocks : Registry Block} {id₁ id₂ : String}
    {block₁ block₂ : Block} (hb₁ : blocks.get? id₁ = some block₁)
    (hb₂ : blocks.get? id₂ = some block₂)
    (haligned : block₁.rect.Stacked block₂.rect ∨ block₁.rect.SideBySide block₂.rect) :
    (blocks.erase id₁).get? id₂ = some block₂ := by
  have hne : id₂ ≠ id₁ := by
    intro heq
    subst heq
    rw [hb₁] at hb₂
    cases hb₂
    have hc := block₁.rect.covers_bottomLeft
    exact Rect.not_covers_of_aligned haligned hc hc
  rw [Registry.get?_erase, if_neg hne, hb₂]

/-- Every step keeps the canvas tessellated. -/
theorem Tessellated.performs {s : Interpreter} {i : Instruction} {o : Outcome} {size : Point}
    (h : Tessellated size s.canvas.blocks.entries) (hclear : Clear s.canvas.ids s.mergeCounter)
    (hp : s.Performs i o) : Tessellated size o.blocks.entries := by
  cases hp with
  | inert hi => exact h
  | colour hb => exact h.insert hb rfl (Block.tiled_simple _)
  | @cut _ id block pieces hi hb hp =>
    have hentries := (hclear.performs_cut hb (Instruction.le_four_of_cut? hi)).2
    refine h.replace [(id, block)] (pieceEntries id pieces) (Registry.perm_erase hb) ?_ ?_ ?_
    · show ((s.canvas.blocks.erase id).insertAll (pieceEntries id pieces)).entries.Perm _
      rw [hentries]
      exact List.perm_append_comm
    · intro e he
      exact hp.tiled (h.tiled_of_get? hb) e.2 (mem_of_mem_pieceEntries he)
    · intro x y
      have hpieces : (pieceEntries id pieces).countP (·.2.rect.Covers x y)
          = pieces.countP (·.rect.Covers x y) := by
        rw [← map_snd_pieceEntries id pieces, List.countP_map, map_snd_pieceEntries]
        rfl
      rw [hpieces, hp.countP_covers x y]
      simp only [List.countP_cons, List.countP_nil, decide_eq_true_eq, Nat.zero_add]
  | @swap id₁ id₂ block₁ block₂ new₁ new₂ hb₁ hb₂ hsize hnew₁ hnew₂ =>
    have hrect₁ := Block.rect_of_relocated hnew₁
    have hrect₂ := Block.rect_of_relocated hnew₂
    have ht₁ : new₁.Tiled := (h.tiled_of_get? hb₂).relocated hsize.symm hnew₁
    have ht₂ : new₂.Tiled := (h.tiled_of_get? hb₁).relocated hsize hnew₂
    have hfirst := h.insert hb₁ hrect₁ ht₁
    -- the second name may be the first one, whose rectangle is the same
    obtain ⟨old, hold, hrect⟩ :
        ∃ old, (s.canvas.blocks.insert id₁ new₁).get? id₂ = some old ∧ new₂.rect = old.rect := by
      rw [Registry.get?_insert]
      by_cases hid : id₂ = id₁
      · subst hid
        rw [hb₁] at hb₂
        cases hb₂
        exact ⟨new₁, if_pos rfl, hrect₂.trans hrect₁.symm⟩
      · exact ⟨block₂, (if_neg hid).trans hb₂, hrect₂⟩
    exact hfirst.insert hold hrect ht₂
  | @merge id₁ id₂ block₁ block₂ hb₁ hb₂ haligned hcounter =>
    have hb₂' := get?_erase_of_aligned hb₁ hb₂ haligned
    refine h.replace [(id₁, block₁), (id₂, block₂)]
      [(toString (s.mergeCounter + 1),
        .complex (block₁.rect.hull block₂.rect) (block₁.leaves ++ block₂.leaves))]
      ((Registry.perm_erase hb₁).trans ((Registry.perm_erase hb₂').cons _)) ?_ ?_ ?_
    · rw [Interpreter.entries_merged (hclear.numbersFree.not_mem_succ hcounter)]
      exact List.perm_append_comm
    · intro e he
      rw [List.mem_singleton.1 he]
      exact (h.tiled_of_get? hb₁).hull (h.tiled_of_get? hb₂) haligned
    · intro x y
      have hcov := Rect.covers_hull haligned x y
      simp only [List.countP_cons, List.countP_nil, decide_eq_true_eq, Nat.zero_add]
      show (if (block₁.rect.hull block₂.rect).Covers x y then 1 else 0) = _
      by_cases h₁ : block₁.rect.Covers x y
      · have h₂ := Rect.not_covers_of_aligned haligned h₁
        rw [if_pos (hcov.2 (.inl h₁)), if_neg h₂, if_pos h₁]
      · by_cases h₂ : block₂.rect.Covers x y
        · rw [if_pos (hcov.2 (.inr h₂)), if_pos h₂, if_neg h₁]
        · rw [if_neg fun hc => (hcov.1 hc).elim h₁ h₂, if_neg h₂, if_neg h₁]

/-! ## Runs -/

/-- The blocks of a canvas tile it, and the leaves of each block tile the block. -/
structure Canvas.Partitioned (c : Canvas) : Prop where
  /-- There is a block. -/
  blocks_ne_nil : c.blocks.entries ≠ []
  /-- Every block has a leaf. -/
  leaves_ne_nil : ∀ e ∈ c.blocks.entries, e.2.leaves ≠ []
  /-- Leaves lie inside their block. -/
  inside : ∀ e ∈ c.blocks.entries, ∀ leaf ∈ e.2.leaves, e.2.rect.Contains leaf.rect
  /-- Each cell of a block is in one leaf. -/
  leaf_once : ∀ e ∈ c.blocks.entries, ∀ x y, e.2.rect.Covers x y →
    e.2.leaves.countP (·.rect.Covers x y) = 1
  /-- Each cell of the canvas is in one block. -/
  block_once : ∀ x y, x < c.width → y < c.height →
    c.blocks.entries.countP (·.2.rect.Covers x y) = 1

theorem Tessellated.partitioned {c : Canvas} (h : Tessellated c.size c.blocks.entries) :
    c.Partitioned where
  blocks_ne_nil hnil := by
    have hone := h.once 0 0 c.width_pos c.height_pos
    rw [hnil, List.countP_nil] at hone
    cases hone
  leaves_ne_nil e he := (h.tiled e he).leaves_ne_nil
  inside e he := (h.tiled e he).inside
  leaf_once e he := (h.tiled e he).once
  block_once := h.once

/-- What every step of a run from a blank canvas keeps. -/
structure Interpreter.Sound (size : Point) (s : Interpreter) : Prop where
  size_eq : s.canvas.size = size
  clear : Clear s.canvas.ids s.mergeCounter
  tessellated : Tessellated size s.canvas.blocks.entries

theorem Interpreter.sound_ofCanvas {c : Canvas} {size : Point} (table : CostTable)
    (hsize : c.size = size)
    (hentries : ∃ fill, c.blocks.entries
      = [(Canvas.rootId, .simple { rect := c.bounds, fill := fill })]) :
    Interpreter.Sound size (.ofCanvas c table) := by
  obtain ⟨fill, hentries⟩ := hentries
  refine ⟨hsize, Clear.of_ids_eq_root ?_ table, ?_, ?_⟩
  · rw [Canvas.ids, Registry.names, hentries]
    rfl
  · intro e he
    rw [show (Interpreter.ofCanvas c table).canvas.blocks.entries = _ from hentries] at he
    rw [List.mem_singleton.1 he]
    exact Block.tiled_simple _
  · intro x y hx hy
    have hcov : c.bounds.Covers x y := by
      rw [← hsize] at hx hy
      exact ⟨Nat.zero_le _, hx, Nat.zero_le _, hy⟩
    rw [show (Interpreter.ofCanvas c table).canvas.blocks.entries = _ from hentries]
    simp only [List.countP_cons, List.countP_nil, Block.rect, hcov, decide_true, if_true]

theorem Interpreter.Sound.foldl_after {size : Point} {s : Interpreter} (h : s.Sound size)
    (is : List Instruction) : (is.foldl Interpreter.after s).Sound size := by
  refine Interpreter.foldl_after_induction h (fun t u i o ht hp hd hc => ?_) is
  refine ⟨hd.size.trans ht.size_eq, ?_, ?_⟩
  · rw [Canvas.ids, hd.blocks, hc]
    exact ht.clear.performs hp
  · rw [hd.blocks]
    exact ht.tessellated.performs ht.clear hp

/-- A canvas of positive size begins blank and is an exact partition of its size
after any instructions, whether they are carried out or refused. -/
theorem partitioned_foldl_after {size : Point} (h : size.Positive) (background : Rgba) :
    ∃ c, Canvas.blank size background = .ok c ∧
      ∀ (table : CostTable) (is : List Instruction),
        let d := (is.foldl Interpreter.after (.ofCanvas c table)).canvas
        d.size = size ∧ d.Partitioned := by
  obtain ⟨c, hc, hsize, -, hentries⟩ := Canvas.exists_blank h background
  refine ⟨c, hc, fun table is => ?_⟩
  have hsound := (Interpreter.sound_ofCanvas table hsize ⟨_, hentries⟩).foldl_after is
  refine ⟨hsound.size_eq, Tessellated.partitioned ?_⟩
  rw [hsound.size_eq]
  exact hsound.tessellated

/-- Of the four pieces the lower two are joined, and what comes of them is cut elsewhere. -/
theorem partitioned_after_cuts_and_merge : ∃ c, Canvas.blank (.ofCoordinates 3 2) .white = .ok c ∧
    let d := ([.pointCut "0" (.ofCoordinates 1 1), .merge "0.0" "0.1", .verticalCut "1" 2].foldl
      Interpreter.after (.ofCanvas c .legacy)).canvas
    d.size = .ofCoordinates 3 2 ∧ d.Partitioned ∧ d.ids = ["0.2", "0.3", "1.0", "1.1"] := by
  obtain ⟨c, hc, h⟩ := partitioned_foldl_after
    (show Point.Positive (.ofCoordinates 3 2) from ⟨by decide, by decide⟩) .white
  obtain ⟨hsize, hpartitioned⟩ := h .legacy
    [.pointCut "0" (.ofCoordinates 1 1), .merge "0.0" "0.1", .verticalCut "1" 2]
  refine ⟨c, hc, hsize, hpartitioned, ?_⟩
  cases hc
  decide +kernel

end Easel
