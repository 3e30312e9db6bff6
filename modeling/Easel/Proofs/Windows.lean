import Easel.Proofs.Conservation
import Easel.Proofs.Layouts

/-!
# Windows of the source image

An image leaf shows the window of the source image that begins at its anchor and is as large
as the leaf, and it can be drawn if that window lies in the image (`Leaf.Readable`). A part
of a leaf keeps the anchor, so its window only shrinks; a new colour and a merge leave
windows as they are. A swap moves the windows with the contents. It is refused where an
anchor would fall below zero, but nothing keeps a window from passing the far edges of the
image: that is found out when the canvas is drawn.

Main statements: `drawn_after_iff`, a swap that moves a window over a far edge is the only
step after which a canvas cannot be drawn any more, and `readable_foldl_after`, this never
happens if no anchor lies beyond the corner of its block at the beginning.
-/

namespace Easel

/-! ## What steps keep of each block -/

/-- A new colour, a cut and a merge keep the property of blocks. -/
structure Block.Hereditary (P : Block → Prop) : Prop where
  leaf : ∀ (rect : Rect) (colour : Rgba), P (.simple { rect, fill := .solid colour })
  part : ∀ (block piece : Block) (half : Half) (axis : Axis) (position : Coordinate), P block →
    block.half? half axis position = some piece → P piece
  hull : ∀ block₁ block₂ : Block, P block₁ → P block₂ →
    P (.complex (block₁.rect.hull block₂.rect) (block₁.leaves ++ block₂.leaves))

/-- What a leaf of one colour has, and a part of a leaf has with the leaf, is kept of all leaves. -/
theorem Block.hereditary_leaves {P : Leaf → Prop}
    (hsolid : ∀ (rect : Rect) (colour : Rgba), P { rect, fill := .solid colour })
    (hpart : ∀ (leaf piece : Leaf) (half : Half) (axis : Axis) (position : Coordinate), P leaf →
      leaf.half? half axis position = some piece → P piece) :
    Hereditary fun block => ∀ leaf ∈ block.leaves, P leaf where
  leaf rect colour leaf hl := by
    rw [List.mem_singleton.1 hl]
    exact hsolid rect colour
  part _ _ _ _ _ h hp leaf hl := by
    rw [leaves_half? hp] at hl
    obtain ⟨whole, hwhole, hleaf⟩ := List.mem_filterMap.1 hl
    exact hpart _ _ _ _ _ (h whole hwhole) hleaf
  hull _ _ h₁ h₂ leaf hl := (List.mem_append.1 hl).elim (h₁ leaf) (h₂ leaf)

/-- What a leaf keeps when it is moved, all leaves of a block keep when the block is. -/
theorem Block.forall_leaves_relocated {P : Leaf → Prop} {block new : Block} {target : Rect}
    (hmove : ∀ (leaf moved : Leaf) (a b : Point), P leaf → leaf.Moved a b moved → P moved)
    (h : ∀ leaf ∈ block.leaves, P leaf) (hsize : block.size = target.size)
    (hnew : block.relocated target = .ok new) : ∀ leaf ∈ new.leaves, P leaf := by
  intro leaf hl
  obtain ⟨old, hold, hm⟩ := exists_of_forall₂ (moved_of_relocated hsize hnew) hl
  exact hmove _ _ _ _ (h old hold) hm

namespace Interpreter

variable {s : Interpreter} {i : Instruction} {o : Outcome} {P : Block → Prop}

/-- Every step keeps a hereditary property of all blocks, if a swap keeps it of the contents
that it moves. -/
theorem Performs.forall_blocks (h : s.Performs i o) (hP : Block.Hereditary P)
    (hs : ∀ e ∈ s.canvas.blocks.entries, P e.2)
    (hmove : ∀ (id₁ id₂ : String) (block₁ block₂ new₁ new₂ : Block), i = .swap id₁ id₂ →
      s.canvas.get? id₁ = some block₁ → s.canvas.get? id₂ = some block₂ →
      block₁.size = block₂.size → block₂.relocated block₁.rect = .ok new₁ →
      block₁.relocated block₂.rect = .ok new₂ → P new₁ ∧ P new₂) :
    ∀ e ∈ o.blocks.entries, P e.2 := by
  have hget {id : String} {block : Block} (hb : s.canvas.get? id = some block) : P block :=
    hs _ (Registry.mem_of_get?_eq_some hb)
  intro e he
  cases h with
  | inert hi => exact hs e he
  | colour hb =>
    rcases Registry.mem_of_mem_insert he with rfl | he
    · exact hP.leaf _ _
    · exact hs e he
  | cut hi hb hp =>
    rcases Registry.mem_of_mem_insertAll he with he | he
    · exact hs e (Registry.mem_of_mem_erase he)
    · exact hp.induction (hget hb) hP.part e.2 (mem_of_mem_pieceEntries he)
  | swap hb₁ hb₂ hsize hnew₁ hnew₂ =>
    have hnew := hmove _ _ _ _ _ _ rfl hb₁ hb₂ hsize hnew₁ hnew₂
    rcases Registry.mem_of_mem_insert he with rfl | he
    · exact hnew.2
    · rcases Registry.mem_of_mem_insert he with rfl | he
      · exact hnew.1
      · exact hs e he
  | merge hb₁ hb₂ haligned hcounter =>
    rcases Registry.mem_of_mem_insert he with rfl | he
    · exact hP.hull _ _ (hget hb₁) (hget hb₂)
    · exact hs e (Registry.mem_of_mem_erase (Registry.mem_of_mem_erase he))

/-- What a move keeps as well, a whole run keeps, whatever names clash on the way. -/
theorem forall_blocks_foldl_after (hP : Block.Hereditary P)
    (hmove : ∀ (block new : Block) (target : Rect), P block → block.size = target.size →
      block.relocated target = .ok new → P new)
    (hs : ∀ e ∈ s.canvas.blocks.entries, P e.2) (is : List Instruction) :
    ∀ e ∈ (is.foldl after s).canvas.blocks.entries, P e.2 := by
  refine foldl_after_induction (P := fun u => ∀ e ∈ u.canvas.blocks.entries, P e.2) hs
    (fun t u i o ht hp hd _ => ?_) is
  have hget {id : String} {block : Block} (hb : t.canvas.get? id = some block) : P block :=
    ht _ (Registry.mem_of_get?_eq_some hb)
  rw [hd.blocks]
  refine hp.forall_blocks hP ht fun _ _ _ _ _ _ _ hb₁ hb₂ hsize hnew₁ hnew₂ => ?_
  exact ⟨hmove _ _ _ (hget hb₂) hsize.symm hnew₁, hmove _ _ _ (hget hb₁) hsize hnew₂⟩

end Interpreter

/-! ## Leaves stay in their blocks -/

theorem Block.hereditary_inside :
    Hereditary fun block => ∀ leaf ∈ block.leaves, block.rect.Contains leaf.rect where
  leaf _ _ := (tiled_simple _).inside
  part _ _ _ _ _ h hp := inside_half? h hp
  hull _ _ h₁ h₂ := inside_hull h₁ h₂

/-- Where a canvas begins with leaves inside their blocks, they stay inside, and so inside the
canvas. -/
theorem Interpreter.inside_foldl_after {s : Interpreter}
    (hs : ∀ e ∈ s.canvas.blocks.entries, ∀ leaf ∈ e.2.leaves, e.2.rect.Contains leaf.rect)
    (is : List Instruction) : ∀ leaf ∈ (is.foldl after s).canvas.leaves,
      (is.foldl after s).canvas.bounds.Contains leaf.rect :=
  Canvas.contains_bounds_of_mem_leaves <| forall_blocks_foldl_after Block.hereditary_inside
    (fun _ _ _ h hsize hnew => Block.inside_relocated h hsize hnew) hs is

/-! ## Canvases of a layout -/

namespace Canvas

variable {c : Canvas} {layout : Layout}

/-- The block of a preset: one leaf with its corner and its fill. -/
def PresetBlock (p : Preset) (block : Block) : Prop :=
  ∃ leaf : Leaf, block = .simple leaf ∧ leaf.rect.bottomLeft = p.bottomLeft ∧
    p.fill = .ok leaf.fill

/-- A canvas begins with one leaf of one colour, or with the blocks of its presets. -/
theorem mem_of_ofLayout (h : ofLayout layout = .ok c) {e : String × Block}
    (he : e ∈ c.blocks.entries) : (∃ rect colour, e.2 = .simple { rect, fill := .solid colour }) ∨
      ∃ p ∈ layout.presets, PresetBlock p e.2 := by
  have hc := describes_of_ofLayout h
  by_cases hnil : layout.presets = []
  · rw [hc.root hnil, List.mem_singleton] at he
    rw [he]
    exact .inl ⟨_, _, rfl⟩
  · obtain ⟨p, hp, -, leaf, hblock, hcorner, -, hfill⟩ := exists_of_forall₂ (hc.presets hnil) he
    exact .inr ⟨p, hp, leaf, hblock, hcorner, Preset.fill_eq_ok_iff.2 hfill⟩

theorem inside_of_blank {size : Point} {background : Rgba} (h : blank size background = .ok c) :
    ∀ e ∈ c.blocks.entries, ∀ leaf ∈ e.2.leaves, e.2.rect.Contains leaf.rect := by
  rw [(of_blank h).2]
  intro e he
  rw [List.mem_singleton.1 he]
  exact (Block.tiled_simple _).inside

/-- At the beginning each block is one leaf. -/
theorem inside_of_ofLayout (h : ofLayout layout = .ok c) :
    ∀ e ∈ c.blocks.entries, ∀ leaf ∈ e.2.leaves, e.2.rect.Contains leaf.rect := by
  intro e he
  rcases mem_of_ofLayout h he with ⟨rect, colour, hblock⟩ | ⟨p, -, leaf, hblock, -, -⟩
  · rw [hblock]
    exact (Block.tiled_simple _).inside
  · rw [hblock]
    exact (Block.tiled_simple _).inside

end Canvas

/-! ## Windows -/

namespace Leaf

/-- The window that a leaf shows lies in the source image also when it is moved by the vector
from `a` to `b`. -/
def ReadableAcross (leaf : Leaf) (a b : Point) (source : Option Picture) : Prop :=
  ∀ anchor, leaf.fill = .image anchor → ∃ picture, source = some picture ∧
    anchor.x + leaf.rect.size.x + b.x ≤ picture.width + a.x ∧
      anchor.y + leaf.rect.size.y + b.y ≤ picture.height + a.y

variable {leaf moved : Leaf} {a b : Point} {source : Option Picture}

theorem Moved.size (h : leaf.Moved a b moved) : moved.rect.size = leaf.rect.size := by
  obtain ⟨hleft, hbottom, hright, htop⟩ := h.rect
  simp only [Rect.size, Point.diff, Point.mk.injEq]
  omega

theorem Moved.readable_iff (h : leaf.Moved a b moved) :
    moved.Readable source ↔ leaf.ReadableAcross a b source := by
  have hmoved := h.fill
  unfold Readable ReadableAcross
  rw [h.size]
  cases hfill : leaf.fill with
  | solid colour =>
    rw [hfill] at hmoved
    rw [← Except.ok.inj hmoved]
    exact iff_of_true nofun nofun
  | image anchor =>
    rw [hfill, Fill.rebased_image_eq_ok_iff] at hmoved
    obtain ⟨anchor', hoffset, hanchor⟩ := hmoved
    obtain ⟨-, hx, hy⟩ := Point.offset?_eq_some_iff.1 hoffset
    rw [hanchor]
    constructor
    · intro hread _ heq
      cases heq
      obtain ⟨picture, hpicture, hx', hy'⟩ := hread anchor' rfl
      exact ⟨picture, hpicture, by omega, by omega⟩
    · intro hread _ heq
      cases heq
      obtain ⟨picture, hpicture, hx', hy'⟩ := hread anchor rfl
      exact ⟨picture, hpicture, by omega, by omega⟩

/-- A part of a leaf shows less of the source image. -/
theorem Readable.half? {piece : Leaf} {half : Half} {axis : Axis} {position : Coordinate}
    (h : leaf.Readable source) (hp : leaf.half? half axis position = some piece) :
    piece.Readable source := by
  obtain ⟨hrect, hfill⟩ := half?_eq_some_iff.1 hp
  have hin := Rect.contains_iff.1 (Rect.contains_half? hrect)
  intro anchor hanchor
  rw [hfill] at hanchor
  obtain ⟨picture, hpicture, hx, hy⟩ := h anchor hanchor
  simp only [Rect.size, Point.diff] at hx hy ⊢
  exact ⟨picture, hpicture, by omega, by omega⟩

end Leaf

theorem Block.hereditary_readable (source : Option Picture) :
    Hereditary fun block => ∀ leaf ∈ block.leaves, leaf.Readable source :=
  hereditary_leaves (fun _ _ => Leaf.readable_of_solid rfl source)
    fun _ _ _ _ _ h hp => h.half? hp

/-- Content can be read where it is moved to if its windows, moved with it, end in the source
image. -/
theorem Block.readable_relocated_iff {block new : Block} {target : Rect}
    {source : Option Picture} (hsize : block.size = target.size)
    (hnew : block.relocated target = .ok new) : (∀ leaf ∈ new.leaves, leaf.Readable source) ↔
      ∀ leaf ∈ block.leaves,
        leaf.ReadableAcross block.rect.bottomLeft target.bottomLeft source := by
  have hmoved := moved_of_relocated hsize hnew
  constructor
  · intro h leaf hl
    obtain ⟨new, hnew, hm⟩ := exists_of_forall₂ hmoved.flip hl
    exact hm.readable_iff.1 (h new hnew)
  · intro h leaf hl
    obtain ⟨old, hold, hm⟩ := exists_of_forall₂ hmoved hl
    exact hm.readable_iff.2 (h old hold)

namespace Interpreter

/-- The windows in two blocks end in the source image when they are exchanged. -/
def ExchangesInside (s : Interpreter) (id₁ id₂ : String) : Prop :=
  ∀ block₁ block₂, s.canvas.get? id₁ = some block₁ → s.canvas.get? id₂ = some block₂ →
    (∀ leaf ∈ block₁.leaves,
      leaf.ReadableAcross block₁.rect.bottomLeft block₂.rect.bottomLeft s.canvas.source) ∧
    ∀ leaf ∈ block₂.leaves,
      leaf.ReadableAcross block₂.rect.bottomLeft block₁.rect.bottomLeft s.canvas.source

variable {s : Interpreter} {i : Instruction} {o : Outcome}

/-- A step keeps the windows in the source image, unless it exchanges some over an edge. -/
theorem Performs.readable_iff (h : s.Performs i o)
    (hs : ∀ e ∈ s.canvas.blocks.entries, ∀ leaf ∈ e.2.leaves, leaf.Readable s.canvas.source) :
    (∀ e ∈ o.blocks.entries, ∀ leaf ∈ e.2.leaves, leaf.Readable s.canvas.source) ↔
      ∀ id₁ id₂, i = .swap id₁ id₂ → s.ExchangesInside id₁ id₂ := by
  constructor
  · rintro hread id₁ id₂ rfl
    cases h with
    | inert hi => exact hi.elim
    | cut hi hb hp => cases hi
    | @swap _ _ block₁ block₂ new₁ new₂ hb₁ hb₂ hsize hnew₁ hnew₂ =>
      intro block₁' block₂' hb₁' hb₂'
      rw [hb₁] at hb₁'
      rw [hb₂] at hb₂'
      cases hb₁'
      cases hb₂'
      have hget (id : String) (new : Block)
          (hnew : ((s.canvas.blocks.insert id₁ new₁).insert id₂ new₂).get? id = some new) :
          ∀ leaf ∈ new.leaves, leaf.Readable s.canvas.source :=
        hread _ (Registry.mem_of_get?_eq_some hnew)
      have hread₂ : ∀ leaf ∈ new₂.leaves, leaf.Readable s.canvas.source := by
        refine hget id₂ new₂ ?_
        rw [Registry.get?_insert, if_pos rfl]
      have hread₁ : ∀ leaf ∈ new₁.leaves, leaf.Readable s.canvas.source := by
        by_cases hid : id₁ = id₂
        · -- a block that is exchanged with itself is moved onto itself
          subst hid
          rw [hb₁] at hb₂
          cases hb₂
          rw [hnew₁] at hnew₂
          cases hnew₂
          exact hread₂
        · refine hget id₁ new₁ ?_
          rw [Registry.get?_insert, if_neg hid, Registry.get?_insert, if_pos rfl]
      exact ⟨(Block.readable_relocated_iff hsize hnew₂).1 hread₂,
        (Block.readable_relocated_iff hsize.symm hnew₁).1 hread₁⟩
  · intro hswap
    refine h.forall_blocks (Block.hereditary_readable _) hs ?_
    intro id₁ id₂ block₁ block₂ new₁ new₂ hi hb₁ hb₂ hsize hnew₁ hnew₂
    obtain ⟨h₁, h₂⟩ := hswap id₁ id₂ hi block₁ block₂ hb₁ hb₂
    exact ⟨(Block.readable_relocated_iff hsize.symm hnew₁).2 h₂,
      (Block.readable_relocated_iff hsize hnew₂).2 h₁⟩

end Interpreter

theorem Canvas.forall_leaves_readable_iff {c : Canvas} {source : Option Picture} :
    (∀ leaf ∈ c.leaves, leaf.Readable source) ↔
      ∀ e ∈ c.blocks.entries, ∀ leaf ∈ e.2.leaves, leaf.Readable source := by
  constructor
  · intro h e he leaf hl
    exact h leaf (Canvas.mem_leaves.2 ⟨e, he, hl⟩)
  · intro h leaf hl
    obtain ⟨e, he, hl⟩ := Canvas.mem_leaves.1 hl
    exact h e he leaf hl

/-- On a canvas that began with a layout, whatever has happened to it since: while all windows
lie in the source image, a step that works leaves them there and the canvas can still be
drawn, with one exception. A swap has to move the windows of both contents so that they end
in the image; if it does not, the canvas cannot be drawn any more. -/
theorem drawn_after_iff {layout : Layout} {c : Canvas} (hc : Canvas.ofLayout layout = .ok c)
    (table : CostTable) (is : List Instruction) {s t : Interpreter}
    (hs : s = is.foldl Interpreter.after (.ofCanvas c table)) {i : Instruction} {cost : Nat}
    (h : Edit.apply i s = .ok cost t)
    (hread : ∀ leaf ∈ s.canvas.leaves, leaf.Readable s.canvas.source) :
    ((∀ leaf ∈ t.canvas.leaves, leaf.Readable t.canvas.source) ↔
      ∀ id₁ id₂, i = .swap id₁ id₂ → s.ExchangesInside id₁ id₂) ∧
    ∀ threading, (∃ f, s.canvas.draw threading = .ok f) →
      ((∃ f, t.canvas.draw threading = .ok f) ↔
        ∀ id₁ id₂, i = .swap id₁ id₂ → s.ExchangesInside id₁ id₂) := by
  obtain ⟨o, hp, hd, -⟩ := Interpreter.performs_of_apply h
  have hafter : (∀ leaf ∈ t.canvas.leaves, leaf.Readable t.canvas.source) ↔
      ∀ id₁ id₂, i = .swap id₁ id₂ → s.ExchangesInside id₁ id₂ := by
    rw [Canvas.forall_leaves_readable_iff, hd.source, hd.blocks]
    exact hp.readable_iff (Canvas.forall_leaves_readable_iff.1 hread)
  refine ⟨hafter, fun threading hdrawn => ?_⟩
  obtain ⟨f, hf⟩ := hdrawn
  obtain ⟨-, -, hfits, hthreads, -⟩ := Canvas.draw_eq_ok_iff.1 hf
  have hin : ∀ leaf ∈ t.canvas.leaves, t.canvas.bounds.Contains leaf.rect := by
    have hrun := Interpreter.inside_foldl_after (s := .ofCanvas c table)
      (Canvas.inside_of_ofLayout hc) (is ++ [i])
    have hlast : (is ++ [i]).foldl Interpreter.after (.ofCanvas c table) = t := by
      rw [List.foldl_append, ← hs]
      exact Interpreter.after_of_apply h
    rwa [hlast] at hrun
  rw [Canvas.exists_draw_iff hin hthreads, hd.size, hafter]
  exact and_iff_right hfits

/-- The image leaf is moved to the right cell, and its window with it, which stays in the
source image; then the cells are joined. -/
theorem drawn_after_swap_and_merge :
    let layout : Layout :=
      { size := .ofCoordinates 2 1
        presets :=
          [{ id := "a", bottomLeft := .origin, topRight := .ofCoordinates 1 1,
             anchor := some .origin },
           { id := "b", bottomLeft := .ofCoordinates 1 0, topRight := .ofCoordinates 2 1,
             colour := some .white }]
        sourcePixels := some #[.white, .transparent] }
    ∃ c r s t cost cost', Canvas.ofLayout layout = .ok c ∧ r = Interpreter.ofCanvas c .legacy ∧
      (∃ f, r.canvas.draw {} = .ok f) ∧ r.ExchangesInside "a" "b" ∧
      Edit.apply (.swap "a" "b") r = .ok cost s ∧
        (∀ leaf ∈ s.canvas.leaves, leaf.Readable s.canvas.source) ∧
        (∃ f, s.canvas.draw {} = .ok f) ∧
      s = [.swap "a" "b"].foldl Interpreter.after r ∧
      Edit.apply (.merge "a" "b") s = .ok cost' t ∧
        (∀ leaf ∈ t.canvas.leaves, leaf.Readable t.canvas.source) ∧
        ∃ f, t.canvas.draw {} = .ok f := by
  intro layout
  obtain ⟨c, hc⟩ : ∃ c, Canvas.ofLayout layout = .ok c := ⟨_, rfl⟩
  obtain ⟨r, hr⟩ : ∃ r, r = Interpreter.ofCanvas c .legacy := ⟨_, rfl⟩
  have hdrawn : ∃ f, r.canvas.draw {} = .ok f := by
    refine exists_of_isOk ?_
    cases hc
    rw [hr]
    decide +kernel
  have hin : ∀ leaf ∈ r.canvas.leaves, r.canvas.bounds.Contains leaf.rect := by
    rw [hr]
    exact Interpreter.inside_foldl_after (Canvas.inside_of_ofLayout hc) []
  have hread := ((Canvas.exists_draw_iff hin (by decide)).1 hdrawn).2
  have hinside : r.ExchangesInside "a" "b" := by
    cases hc
    cases hr
    intro block₁ block₂ hb₁ hb₂
    cases hb₁
    cases hb₂
    refine ⟨fun leaf hl anchor hanchor => ?_, fun leaf hl anchor hanchor => ?_⟩
    · cases List.mem_singleton.1 hl
      cases hanchor
      exact ⟨_, rfl, by decide, by decide⟩
    · cases List.mem_singleton.1 hl
      cases hanchor
  obtain ⟨cost, s, hs, haccepts⟩ : ∃ cost s, Edit.apply (.swap "a" "b") r = .ok cost s ∧
      s.Accepts (.merge "a" "b") := by
    cases hc
    rw [hr]
    refine Interpreter.exists_apply_of_accepts ?_
    decide +kernel
  obtain ⟨cost', ht⟩ := Interpreter.accepts_iff.1 haccepts
  have hswap : ∀ id₁ id₂, Instruction.swap "a" "b" = .swap id₁ id₂ →
      r.ExchangesInside id₁ id₂ := by
    intro id₁ id₂ hi
    cases hi
    exact hinside
  have hafter : s = [.swap "a" "b"].foldl Interpreter.after r :=
    (Interpreter.after_of_apply hs).symm
  obtain ⟨hreadSwap, hdrawnSwap⟩ := drawn_after_iff hc .legacy [] hr hs hread
  have hread' := hreadSwap.2 hswap
  have hdrawn' := (hdrawnSwap {} hdrawn).2 hswap
  obtain ⟨hreadMerge, hdrawnMerge⟩ :=
    drawn_after_iff hc .legacy [.swap "a" "b"] (hr ▸ hafter) ht hread'
  exact ⟨c, r, s, _, cost, cost', hc, hr, hdrawn, hinside, hs, hread', hdrawn', hafter, ht,
    hreadMerge.2 nofun, (hdrawnMerge {} hdrawn').2 nofun⟩

/-- The window in the left cell is the right pixel of the source image; a swap moves it over
the edge, and only drawing tells. -/
theorem swap_moves_window_outside :
    let layout : Layout :=
      { size := .ofCoordinates 2 1
        presets :=
          [{ id := "a", bottomLeft := .origin, topRight := .ofCoordinates 1 1,
             anchor := some (.ofCoordinates 1 0) },
           { id := "b", bottomLeft := .ofCoordinates 1 0, topRight := .ofCoordinates 2 1,
             colour := some .white }]
        sourcePixels := some #[.white, .transparent] }
    ∃ c s cost t, Canvas.ofLayout layout = .ok c ∧ s = Interpreter.ofCanvas c .legacy ∧
      (∀ leaf ∈ s.canvas.leaves, leaf.Readable s.canvas.source) ∧
        (∃ f, s.canvas.draw {} = .ok f) ∧ Edit.apply (.swap "a" "b") s = .ok cost t ∧
          (¬ ∀ leaf ∈ t.canvas.leaves, leaf.Readable t.canvas.source) ∧
            ∃ e, t.canvas.draw {} = .error (.refused e) ∧ e.line? = none := by
  intro layout
  obtain ⟨c, hc⟩ : ∃ c, Canvas.ofLayout layout = .ok c := ⟨_, rfl⟩
  obtain ⟨s, hs⟩ : ∃ s, s = Interpreter.ofCanvas c .legacy := ⟨_, rfl⟩
  have hdrawn : ∃ f, s.canvas.draw {} = .ok f := by
    refine exists_of_isOk ?_
    cases hc
    rw [hs]
    decide +kernel
  have hin : ∀ leaf ∈ s.canvas.leaves, s.canvas.bounds.Contains leaf.rect := by
    cases hc
    rw [hs]
    decide +kernel
  obtain ⟨cost, t, ht, hin', hfits, hdraw⟩ : ∃ cost t, Edit.apply (.swap "a" "b") s = .ok cost t ∧
      (∀ leaf ∈ t.canvas.leaves, t.canvas.bounds.Contains leaf.rect) ∧
        Frame.Fits t.canvas.size ∧ (match t.canvas.draw {} with
          | .error (.refused e) => e.line?.isNone
          | _ => false) = true := by
    cases hc
    rw [hs]
    refine Interpreter.exists_apply_of_accepts ?_
    decide +kernel
  obtain ⟨e, he, hline⟩ : ∃ e, t.canvas.draw {} = .error (.refused e) ∧ e.line? = none := by
    split at hdraw
    next e he => exact ⟨e, he, Option.isNone_iff_eq_none.1 hdraw⟩
    next => cases hdraw
  have hread := ((Canvas.exists_draw_iff hin (by decide)).1 hdrawn).2
  refine ⟨c, s, cost, t, hc, hs, hread, hdrawn, ht, fun hread' => ?_, e, he, hline⟩
  obtain ⟨f, hf⟩ : ∃ f, t.canvas.draw {} = .ok f :=
    (Canvas.exists_draw_iff hin' (by decide)).2 ⟨hfits, hread'⟩
  rw [he] at hf
  cases hf

/-! ## Anchors that lie in front of their leaves -/

/-- The anchor of an image leaf lies neither to the right of its corner nor above it. -/
def Leaf.Anchored (leaf : Leaf) : Prop :=
  ∀ anchor, leaf.fill = .image anchor →
    anchor.x ≤ leaf.rect.bottomLeft.x ∧ anchor.y ≤ leaf.rect.bottomLeft.y

theorem Leaf.Anchored.half? {leaf piece : Leaf} {half : Half} {axis : Axis}
    {position : Coordinate} (h : leaf.Anchored)
    (hp : leaf.half? half axis position = some piece) : piece.Anchored := by
  obtain ⟨hrect, hfill⟩ := half?_eq_some_iff.1 hp
  have hin := Rect.contains_iff.1 (Rect.contains_half? hrect)
  intro anchor hanchor
  rw [hfill] at hanchor
  obtain ⟨hx, hy⟩ := h anchor hanchor
  omega

theorem Leaf.Anchored.moved {leaf moved : Leaf} {a b : Point} (h : leaf.Anchored)
    (hm : leaf.Moved a b moved) : moved.Anchored := by
  obtain ⟨hleft, hbottom, -, -⟩ := hm.rect
  have hmoved := hm.fill
  intro anchor' hanchor'
  cases hfill : leaf.fill with
  | solid colour =>
    rw [hfill, hanchor'] at hmoved
    cases hmoved
  | image anchor =>
    rw [hfill, Fill.rebased_image_eq_ok_iff, hanchor'] at hmoved
    obtain ⟨_, hoffset, ⟨⟩⟩ := hmoved
    obtain ⟨-, hx', hy'⟩ := Point.offset?_eq_some_iff.1 hoffset
    obtain ⟨hx, hy⟩ := h anchor hfill
    omega

theorem Block.hereditary_anchored : Hereditary fun block => ∀ leaf ∈ block.leaves,
    leaf.Anchored :=
  hereditary_leaves (fun _ _ => nofun) fun _ _ _ _ _ h hp => h.half? hp

theorem Preset.fill_eq_image {p : Preset} {anchor : Point} (h : p.fill = .ok (.image anchor)) :
    p.anchor = some anchor := by
  unfold fill at h
  split at h
  next => cases h
  next _ a _ ha =>
    cases h
    exact ha
  next => cases h

/-- If no preset shows more of the source image than what lies to the left of its corner and
below it, the canvas can be read after any instructions: a window never ends beyond its leaf. -/
theorem readable_foldl_after {layout : Layout} {c : Canvas} {picture : Picture}
    (hc : Canvas.ofLayout layout = .ok c) (hsource : c.source = some picture)
    (hanchor : ∀ p ∈ layout.presets, ∀ anchor, p.anchor = some anchor →
      anchor.x ≤ p.bottomLeft.x ∧ anchor.y ≤ p.bottomLeft.y)
    (table : CostTable) (is : List Instruction) :
    let d := (is.foldl Interpreter.after (.ofCanvas c table)).canvas
    ∀ leaf ∈ d.leaves, leaf.Readable d.source := by
  intro d leaf hl anchor hfill
  have hbegin : ∀ e ∈ c.blocks.entries, ∀ leaf ∈ e.2.leaves, leaf.Anchored := by
    intro e he leaf hl anchor hfill
    rcases Canvas.mem_of_ofLayout hc he with
      ⟨rect, colour, hblock⟩ | ⟨p, hp, only, hblock, hcorner, hpreset⟩
    · rw [hblock] at hl
      rw [List.mem_singleton.1 hl] at hfill
      cases hfill
    · rw [hblock] at hl
      rw [List.mem_singleton.1 hl] at hfill ⊢
      rw [hcorner]
      rw [hfill] at hpreset
      exact hanchor p hp anchor (Preset.fill_eq_image hpreset)
  obtain ⟨e, he, hle⟩ := Canvas.mem_leaves.1 hl
  have hanchored : leaf.Anchored := by
    refine Interpreter.forall_blocks_foldl_after Block.hereditary_anchored
      (fun block new target => ?_) hbegin is e he leaf hle
    exact Block.forall_leaves_relocated fun _ _ _ _ h hm => h.moved hm
  have hin : leaf.rect.topRight.x ≤ d.size.x ∧ leaf.rect.topRight.y ≤ d.size.y :=
    Canvas.contains_bounds_iff.1
      (Interpreter.inside_foldl_after (s := .ofCanvas c table) (Canvas.inside_of_ofLayout hc) is
        leaf hl)
  have hsame : d.source = some picture :=
    Interpreter.foldl_after_induction (s := .ofCanvas c table)
      (P := fun u => u.canvas.source = some picture) hsource
      (fun t u i o ht _ hd _ => hd.source.trans ht) is
  obtain ⟨hwidth, hheight⟩ := d.source_size picture hsame
  obtain ⟨hx, hy⟩ := hanchored anchor hfill
  have hrx := leaf.rect.x_lt
  have hry := leaf.rect.y_lt
  refine ⟨picture, hsame, ?_, ?_⟩
  · rw [hwidth]
    simp only [Rect.size, Point.diff]
    omega
  · rw [hheight]
    simp only [Rect.size, Point.diff]
    omega

end Easel
