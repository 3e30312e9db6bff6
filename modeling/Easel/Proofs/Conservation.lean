import Easel.Proofs.Painting
import Easel.Proofs.Partition

/-!
# Cuts and merges keep the picture

A cut and a merge take blocks from the front and put others at the end, so the leaves of
the canvas come in another order and some of them in parts. None of that is seen. What the
leaves over a cell show can be read off the blocks one after another, and where blocks share
no cells only one of them has anything to show; so their order does not count
(`flatMap_eq_of_perm`). A cell keeps all that it shows in one piece of a cut, as long as no
image leaf is cut itself, since the parts of an image leaf would each show it from its
corner (`Cut.flatMap_seenAt`).

`seenAt` may tell of a leaf whatever it likes, if it tells the same of all leaves of one
plain colour (`TellsColours`). Told of that it is there at all, of its readability and of
its colour, this is all that drawing depends on.

Main statement: `draw_eq_ok_iff_of_cut_or_merge`.
-/

namespace Easel

/-- Leaves of one plain colour are all told alike. -/
def TellsColours {α : Type} (g : Leaf → α) : Prop :=
  ∀ (leaf leaf' : Leaf) (colour : Rgba), leaf.fill = .solid colour → leaf'.fill = .solid colour →
    g leaf = g leaf'

/-! ## Leaves across a cut -/

/-- The lines along which an instruction cuts. -/
def Instruction.CutsAlong : Instruction → Axis → Nat → Prop
  | .pointCut _ p, .x, position => position = p.x
  | .pointCut _ p, .y, position => position = p.y
  | .verticalCut _ x, .x, position => position = x.val
  | .horizontalCut _ y, .y, position => position = y.val
  | _, _, _ => False

namespace Leaf

/-- A line of the cut runs through the leaf. -/
def Straddles (leaf : Leaf) (i : Instruction) : Prop :=
  ∃ axis position, i.CutsAlong axis position ∧
    leaf.rect.low axis < position ∧ position < leaf.rect.high axis

/-- The leaf has one colour if the cut runs through it. -/
def Divisible (leaf : Leaf) (i : Instruction) : Prop :=
  leaf.Straddles i → ∃ colour, leaf.fill = .solid colour

variable {leaf piece : Leaf} {i : Instruction} {half : Half} {axis : Axis} {position : Coordinate}

/-- The parts of a leaf have its colour, or the leaf is not cut at all. -/
theorem Divisible.eq_or_solid (h : leaf.Divisible i) (hline : i.CutsAlong axis position.val)
    (hp : leaf.half? half axis position = some piece) :
    piece = leaf ∨ ∃ colour, leaf.fill = .solid colour ∧ piece.fill = .solid colour := by
  obtain ⟨hrect, hfill⟩ := half?_eq_some_iff.1 hp
  by_cases hacross : leaf.rect.low axis < position.val ∧ position.val < leaf.rect.high axis
  · obtain ⟨colour, hcolour⟩ := h ⟨axis, position.val, hline, hacross⟩
    exact .inr ⟨colour, hcolour, hfill.trans hcolour⟩
  · have hmeets := Rect.exists_half?_iff.1 ⟨_, hrect⟩
    have hself : leaf.rect.half? half axis position = some leaf.rect := by
      refine Rect.half?_eq_self fun hother => hacross ?_
      cases half
      · exact ⟨hmeets, hother⟩
      · exact ⟨hother, hmeets⟩
    rw [hself] at hrect
    cases piece
    cases leaf
    cases hrect
    cases hfill
    exact .inl rfl

theorem Divisible.half? (h : leaf.Divisible i) (hline : i.CutsAlong axis position.val)
    (hp : leaf.half? half axis position = some piece) : piece.Divisible i := by
  rcases h.eq_or_solid hline hp with rfl | ⟨colour, -, hpiece⟩
  · exact h
  · exact fun _ => ⟨colour, hpiece⟩

theorem Divisible.tells_eq {α : Type} {g : Leaf → α} (hg : TellsColours g) (h : leaf.Divisible i)
    (hline : i.CutsAlong axis position.val) (hp : leaf.half? half axis position = some piece) :
    g piece = g leaf := by
  rcases h.eq_or_solid hline hp with rfl | ⟨colour, hleaf, hpiece⟩
  · rfl
  · exact hg piece leaf colour hpiece hleaf

end Leaf

/-! ## The pieces of a block -/

namespace Block

variable {α : Type} {g : Leaf → α} {block piece : Block} {i : Instruction} {half : Half}
  {axis : Axis} {position : Coordinate}

theorem divisible_half? (hdiv : ∀ leaf ∈ block.leaves, leaf.Divisible i)
    (hline : i.CutsAlong axis position.val) (hp : block.half? half axis position = some piece) :
    ∀ leaf ∈ piece.leaves, leaf.Divisible i := by
  intro leaf hl
  rw [leaves_half? hp] at hl
  obtain ⟨whole, hwhole, hpart⟩ := List.mem_filterMap.1 hl
  exact (hdiv whole hwhole).half? hline hpart

theorem seenAt_half? (hg : TellsColours g) (hdiv : ∀ leaf ∈ block.leaves, leaf.Divisible i)
    (hline : i.CutsAlong axis position.val) (hp : block.half? half axis position = some piece)
    (x y : Nat) :
    seenAt g piece.leaves x y
      = if half.Has axis position.val x y then seenAt g block.leaves x y else [] := by
  rw [leaves_half? hp]
  exact seenAt_filterMap_half? g (fun leaf hl _ hpart => (hdiv leaf hl).tells_eq hg hline hpart) x y

theorem seenAt_quarter? {id : String} {p : Point} {side level : Half} (hg : TellsColours g)
    (hdiv : ∀ leaf ∈ block.leaves, leaf.Divisible (.pointCut id p))
    (hp : block.quarter? side level p = some piece) (x y : Nat) :
    seenAt g piece.leaves x y
      = if side.Has .x p.x x y ∧ level.Has .y p.y x y then seenAt g block.leaves x y else [] := by
  obtain ⟨m, hm, hp⟩ := Option.bind_eq_some_iff.1 hp
  have hx : (Instruction.pointCut id p).CutsAlong .x (p.along .x).val := rfl
  have hy : (Instruction.pointCut id p).CutsAlong .y (p.along .y).val := rfl
  rw [seenAt_half? hg (divisible_half? hdiv hx hm) hy hp, seenAt_half? hg hdiv hx hm]
  show (if level.Has .y p.y x y then if side.Has .x p.x x y then _ else _ else _) = _
  by_cases hside : side.Has .x p.x x y <;> by_cases hlevel : level.Has .y p.y x y <;>
    simp [hside, hlevel]

/-- The pieces of a cut together tell of a cell what their block told of it. -/
theorem Cut.flatMap_seenAt {pieces : List Block} (h : block.Cut i pieces) (hg : TellsColours g)
    (hdiv : ∀ leaf ∈ block.leaves, leaf.Divisible i) (x y : Nat) :
    pieces.flatMap (fun piece => seenAt g piece.leaves x y) = seenAt g block.leaves x y := by
  cases h with
  | @point id p pieces h =>
    obtain ⟨h₁, h₂, h₃, h₄⟩ := cutPoint_eq_ok_iff.1 h
    simp only [Quarters.toList, List.flatMap_cons, List.flatMap_nil, seenAt_quarter? hg hdiv h₁,
      seenAt_quarter? hg hdiv h₂, seenAt_quarter? hg hdiv h₃, seenAt_quarter? hg hdiv h₄,
      Half.high_has_iff]
    by_cases hx : Half.low.Has .x p.x x y <;> by_cases hy : Half.low.Has .y p.y x y <;>
      simp [hx, hy]
  | vertical id h | horizontal id h =>
    obtain ⟨hl, hh⟩ := cutLine_eq_ok_iff.1 h
    simp only [Halves.toList, List.flatMap_cons, List.flatMap_nil,
      seenAt_half? hg hdiv (by rfl) hl, seenAt_half? hg hdiv (by rfl) hh, Half.high_has_iff]
    split <;> simp

end Block

/-! ## All blocks together -/

/-- The order of a list does not count if only one of its elements adds something. -/
theorem flatMap_eq_of_perm {α β : Type} {f : α → List β} {as as' : List α} (h : as.Perm as')
    (hone : as.Pairwise fun a b => f a = [] ∨ f b = []) : as.flatMap f = as'.flatMap f := by
  induction h with
  | nil => rfl
  | cons a _ ih =>
    rw [List.flatMap_cons, List.flatMap_cons, ih (List.pairwise_cons.1 hone).2]
  | swap a b as =>
    have hpair := (List.pairwise_cons.1 hone).1 a List.mem_cons_self
    simp only [List.flatMap_cons]
    rcases hpair with hb | ha
    · rw [hb, List.nil_append, List.nil_append]
    · rw [ha, List.nil_append, List.nil_append]
  | trans hab _ ih ih' =>
    exact (ih hone).trans (ih' ((hab.pairwise_iff Or.symm).1 hone))

/-- Blocks share no cells, and keep their leaves inside. -/
structure Canvas.Separated (c : Canvas) : Prop where
  disjoint : ∀ e ∈ c.blocks.entries, ∀ e' ∈ c.blocks.entries, e.1 ≠ e'.1 →
    ∀ x y, e.2.rect.Covers x y → ¬ e'.2.rect.Covers x y
  inside : ∀ e ∈ c.blocks.entries, ∀ leaf ∈ e.2.leaves, e.2.rect.Contains leaf.rect

section
variable {α : Type} (g : Leaf → α)

theorem seenAt_leaves (c : Canvas) (x y : Nat) :
    seenAt g c.leaves x y = c.blocks.entries.flatMap fun e => seenAt g e.2.leaves x y := by
  unfold Canvas.leaves Registry.values seenAt
  rw [List.filter_flatMap, List.map_flatMap, List.flatMap_map]

/-- A block that keeps its leaves inside has nothing to show elsewhere. -/
theorem seenAt_eq_nil {block : Block} (hin : ∀ leaf ∈ block.leaves, block.rect.Contains leaf.rect)
    {x y : Nat} (hc : ¬ block.rect.Covers x y) : seenAt g block.leaves x y = [] := by
  have hnone : block.leaves.filter (·.rect.Covers x y) = [] := by
    refine List.filter_eq_nil_iff.2 fun leaf hl hcovers => hc ?_
    exact (hin leaf hl).covers (of_decide_eq_true hcovers)
  rw [seenAt, hnone, List.map_nil]

/-- Where blocks share no cells, they may be taken in any order. -/
theorem Canvas.Separated.seenAt_leaves {c : Canvas} (h : c.Separated)
    {entries : List (String × Block)} (hperm : c.blocks.entries.Perm entries) (x y : Nat) :
    seenAt g c.leaves x y = entries.flatMap fun e => seenAt g e.2.leaves x y := by
  rw [Easel.seenAt_leaves]
  refine flatMap_eq_of_perm hperm ?_
  have hnames : c.blocks.entries.Pairwise fun e e' => e.1 ≠ e'.1 :=
    List.pairwise_map.1 c.blocks.nodup
  refine hnames.imp_of_mem fun {e e'} he he' hne => ?_
  by_cases hc : e.2.rect.Covers x y
  · exact .inr (seenAt_eq_nil g (h.inside e' he') (h.disjoint e he e' he' hne x y hc))
  · exact .inl (seenAt_eq_nil g (h.inside e he) hc)

/-- A cell of a block shows what the block has to show. -/
theorem Canvas.Separated.seenAt_of_get? {c : Canvas} (h : c.Separated) {id : String}
    {block : Block} (hb : c.get? id = some block) {x y : Nat} (hc : block.rect.Covers x y) :
    seenAt g c.leaves x y = seenAt g block.leaves x y := by
  have hothers : (c.blocks.erase id).entries.flatMap (fun e => seenAt g e.2.leaves x y) = [] := by
    refine List.flatMap_eq_nil_iff.2 fun e he => ?_
    have hmem := Registry.mem_of_mem_erase he
    have hne : id ≠ e.1 :=
      Ne.symm (Registry.mem_names_erase.1 (List.mem_map_of_mem he)).2
    have hother := h.disjoint _ (Registry.mem_of_get?_eq_some hb) e hmem hne x y hc
    exact seenAt_eq_nil g (h.inside e hmem) hother
  rw [h.seenAt_leaves g (Registry.perm_erase hb), List.flatMap_cons, hothers, List.append_nil]

/-- A cell of no block shows nothing. -/
theorem Canvas.Separated.seenAt_of_not_covers {c : Canvas} (h : c.Separated) {x y : Nat}
    (hc : ∀ e ∈ c.blocks.entries, ¬ e.2.rect.Covers x y) : seenAt g c.leaves x y = [] := by
  rw [Easel.seenAt_leaves]
  exact List.flatMap_eq_nil_iff.2 fun e he => seenAt_eq_nil g (h.inside e he) (hc e he)

end

/-! ## Steps -/

variable {s : Interpreter}

theorem Interpreter.seenAt_cutInto {α : Type} {g : Leaf → α} (hsep : s.canvas.Separated)
    {i : Instruction} {id : String} {block : Block} {pieces : List Block} {t : Canvas}
    (hi : i.cut? = some (id, pieces.length)) (hb : s.canvas.get? id = some block)
    (hp : block.Cut i pieces)
    (ht : t.blocks = (s.canvas.blocks.erase id).insertAll (pieceEntries id pieces))
    (hnew : ∀ m < pieces.length, Edit.pieceId id m ∉ s.canvas.ids) (hg : TellsColours g)
    (hdiv : ∀ leaf ∈ block.leaves, leaf.Divisible i) (x y : Nat) :
    seenAt g s.canvas.leaves x y = seenAt g t.leaves x y := by
  have hpieces : ((s.canvas.blocks.erase id).insertAll (pieceEntries id pieces)).entries
      = (s.canvas.blocks.erase id).entries ++ pieceEntries id pieces :=
    entries_insertAll_pieceEntries (Instruction.le_four_of_cut? hi) fun m hm hmem =>
      hnew m hm (Registry.mem_names_erase.1 hmem).1
  have hold := (Registry.perm_erase hb).trans (List.perm_append_singleton _ _).symm
  rw [hsep.seenAt_leaves g hold, seenAt_leaves, ht, hpieces, List.flatMap_append,
    List.flatMap_append]
  refine congrArg _ ?_
  rw [List.flatMap_singleton, ← hp.flatMap_seenAt hg hdiv x y]
  conv_lhs => rw [← map_snd_pieceEntries id pieces, List.flatMap_map]

theorem Interpreter.seenAt_merged {α : Type} {g : Leaf → α} (hsep : s.canvas.Separated)
    {id₁ id₂ : String} {block₁ block₂ : Block} {t : Canvas}
    (hb₁ : s.canvas.get? id₁ = some block₁) (hb₂ : s.canvas.get? id₂ = some block₂)
    (haligned : block₁.rect.Stacked block₂.rect ∨ block₁.rect.SideBySide block₂.rect)
    (ht : t.blocks = (s.merged id₁ id₂ block₁ block₂).blocks)
    (hnew : toString (s.mergeCounter + 1) ∉ s.canvas.ids) (x y : Nat) :
    seenAt g s.canvas.leaves x y = seenAt g t.leaves x y := by
  have hb₂' := get?_erase_of_aligned hb₁ hb₂ haligned
  have hold : s.canvas.blocks.entries.Perm
      (((s.canvas.blocks.erase id₁).erase id₂).entries ++ [(id₁, block₁), (id₂, block₂)]) := by
    have hfront : s.canvas.blocks.entries.Perm
        ([(id₁, block₁), (id₂, block₂)] ++ ((s.canvas.blocks.erase id₁).erase id₂).entries) :=
      (Registry.perm_erase hb₁).trans ((Registry.perm_erase hb₂').cons _)
    exact hfront.trans List.perm_append_comm
  have hmerged : t.blocks.entries = ((s.canvas.blocks.erase id₁).erase id₂).entries
      ++ [(toString (s.mergeCounter + 1),
        .complex (block₁.rect.hull block₂.rect) (block₁.leaves ++ block₂.leaves))] := by
    rw [ht, Interpreter.entries_merged hnew]
  rw [hsep.seenAt_leaves g hold, seenAt_leaves, hmerged, List.flatMap_append, List.flatMap_append]
  refine congrArg _ ?_
  simp only [List.flatMap_cons, List.flatMap_nil, List.append_nil]
  exact (seenAt_append g block₁.leaves block₂.leaves x y).symm

/-- No block is named by a number that the counter has still to reach. -/
theorem Interpreter.not_mem_ids_foldl_after (c : Canvas) (table : CostTable)
    (is : List Instruction) {n : Nat}
    (hn : (is.foldl Interpreter.after (.ofCanvas c table)).mergeCounter < n)
    (hlt : n < 18446744073709551616) :
    toString n ∉ (is.foldl Interpreter.after (.ofCanvas c table)).canvas.ids :=
  (NumbersFree.ofCanvas c table).foldl_after is n hn hlt

/-! ## Pictures -/

namespace Canvas

variable {c d : Canvas} {threading : Threading} {f : Frame}

/-- Whatever is told of the leaves over a cell, one canvas tells the same as the other. -/
def SeenAlike (c d : Canvas) : Prop :=
  ∀ {α : Type} (g : Leaf → α), TellsColours g → ∀ x y, seenAt g c.leaves x y = seenAt g d.leaves x y

theorem SeenAlike.symm (h : c.SeenAlike d) : d.SeenAlike c :=
  fun g hg x y => (h g hg x y).symm

theorem tellsColours_readable (source : Option Picture) :
    TellsColours fun leaf => leaf.Readable source := by
  intro leaf leaf' colour h h'
  exact propext (iff_of_true (Leaf.readable_of_solid h source) (Leaf.readable_of_solid h' source))

theorem tellsColours_colourAt? (source : Option Picture) (x y : Nat) :
    TellsColours fun leaf => leaf.colourAt? source x y := by
  intro leaf leaf' colour h h'
  show leaf.colourAt? source x y = leaf'.colourAt? source x y
  rw [Leaf.colourAt?_of_solid h, Leaf.colourAt?_of_solid h']

/-- What is told of each leaf is told of some cell. -/
theorem forall_leaves_iff {leaves : List Leaf} {p : Leaf → Prop} :
    (∀ leaf ∈ leaves, p leaf) ↔ ∀ x y, ∀ q ∈ seenAt p leaves x y, q := by
  constructor
  · intro h x y q hq
    obtain ⟨leaf, hleaf, rfl⟩ := List.mem_map.1 hq
    exact h leaf (List.mem_filter.1 hleaf).1
  · intro h leaf hl
    refine h leaf.rect.bottomLeft.x leaf.rect.bottomLeft.y _ (List.mem_map.2 ⟨leaf, ?_, rfl⟩)
    exact List.mem_filter.2 ⟨hl, decide_eq_true leaf.rect.covers_bottomLeft⟩

theorem SeenAlike.readable (h : c.SeenAlike d) {source : Option Picture}
    (hc : ∀ leaf ∈ c.leaves, leaf.Readable source) : ∀ leaf ∈ d.leaves, leaf.Readable source := by
  rw [forall_leaves_iff] at hc ⊢
  intro x y
  rw [← h _ (tellsColours_readable source)]
  exact hc x y

/-- The last cell of a leaf tells whether it lies inside. -/
theorem SeenAlike.inside (h : c.SeenAlike d) (hsize : d.size = c.size)
    (hc : ∀ leaf ∈ c.leaves, c.bounds.Contains leaf.rect) :
    ∀ leaf ∈ d.leaves, d.bounds.Contains leaf.rect := by
  intro leaf hl
  have hx := leaf.rect.x_lt
  have hy := leaf.rect.y_lt
  have hlast : leaf.rect.Covers (leaf.rect.topRight.x - 1) (leaf.rect.topRight.y - 1) := by
    unfold Rect.Covers
    omega
  have hseen : () ∈ seenAt (fun _ => ()) d.leaves (leaf.rect.topRight.x - 1)
      (leaf.rect.topRight.y - 1) :=
    List.mem_map.2 ⟨leaf, List.mem_filter.2 ⟨hl, decide_eq_true hlast⟩, rfl⟩
  rw [← h (fun _ => ()) fun _ _ _ _ _ => rfl] at hseen
  obtain ⟨leaf', hleaf', -⟩ := List.mem_map.1 hseen
  obtain ⟨hl', hcovers⟩ := List.mem_filter.1 hleaf'
  have hcovers' : leaf'.rect.Covers _ _ := of_decide_eq_true hcovers
  have hin := contains_bounds_iff.1 (hc leaf' hl')
  rw [contains_bounds_iff, hsize]
  unfold Rect.Covers at hcovers'
  omega

theorem SeenAlike.draw_eq_ok (h : c.SeenAlike d) (hsize : d.size = c.size)
    (hsource : d.source = c.source) (hin : ∀ leaf ∈ c.leaves, c.bounds.Contains leaf.rect)
    (hf : c.draw threading = .ok f) : d.draw threading = .ok f := by
  obtain ⟨_, _, _, hthreads, -⟩ := draw_eq_ok_iff.1 hf
  obtain ⟨hfits, hreadable⟩ := (exists_draw_iff hin hthreads).1 ⟨f, hf⟩
  have hin' := h.inside hsize hin
  rw [← hsize] at hfits
  have hreadable' := h.readable hreadable
  rw [← hsource] at hreadable'
  obtain ⟨f', hf'⟩ := (exists_draw_iff hin' hthreads).2 ⟨hfits, hreadable'⟩
  have hw : d.width = c.width := congrArg Point.x hsize
  have hh : d.height = c.height := congrArg Point.y hsize
  have hframe : f' = f := by
    refine frame_eq_of_pixel? hf hf' hsize fun column row hcolumn hrow => ?_
    rw [pixel?_of_draw hin' hf' (hw ▸ hcolumn) (hh ▸ hrow), pixel?_of_draw hin hf hcolumn hrow, hh,
      hsource]
    have hseen := h _ (tellsColours_colourAt? c.source column (c.height - 1 - row)) column
      (c.height - 1 - row)
    have hshown := congrArg (fun l : List (Option Rgba) =>
      some ((l.filterMap id).getLast?.getD .transparent)) hseen.symm
    unfold seenAt at hshown
    simp only [List.filterMap_map] at hshown
    exact hshown
  rwa [hframe] at hf'

end Canvas

/-- Where blocks share no cells and keep their leaves inside, a merge changes nothing in the
picture, and neither does a cut whose pieces have new names and that runs through no image
leaf: if the canvas is drawn before, it is drawn after, and the other way round, and the
frames are the same. -/
theorem draw_eq_ok_iff_of_cut_or_merge (c : Canvas) (table : CostTable) (is : List Instruction)
    {s t : Interpreter} (hs : s = is.foldl Interpreter.after (.ofCanvas c table))
    (hsep : s.canvas.Separated) {i : Instruction} {cost : Nat} (h : Edit.apply i s = .ok cost t)
    (hi : (∃ id₁ id₂, i = .merge id₁ id₂) ∨
      ∃ id n block, i.cut? = some (id, n) ∧ s.canvas.get? id = some block ∧
        (∀ m < n, Edit.pieceId id m ∉ s.canvas.ids) ∧
        ∀ leaf ∈ block.leaves, leaf.Straddles i → ∀ anchor, leaf.fill ≠ .image anchor)
    (threading : Threading) (f : Frame) :
    s.canvas.draw threading = .ok f ↔ t.canvas.draw threading = .ok f := by
  obtain ⟨o, hp, hd, -⟩ := Interpreter.performs_of_apply h
  have hin : ∀ leaf ∈ s.canvas.leaves, s.canvas.bounds.Contains leaf.rect := by
    intro leaf hl
    obtain ⟨block, hblock, hl⟩ := List.mem_flatMap.1 hl
    obtain ⟨e, he, rfl⟩ := List.mem_map.1 hblock
    have hbounds := Canvas.contains_bounds_iff.2 (s.canvas.topRight_le e he)
    exact hbounds.trans (hsep.inside e he leaf hl)
  have hseen : s.canvas.SeenAlike t.canvas := by
    intro α g hg x y
    rcases hi with ⟨id₁, id₂, rfl⟩ | ⟨id, n, block, hcut, hb, hnew, himage⟩
    · cases hp with
      | inert hinert => exact hinert.elim
      | cut hcut hb hp => cases hcut
      | merge hb₁ hb₂ haligned hcounter =>
        refine Interpreter.seenAt_merged hsep hb₁ hb₂ haligned hd.blocks ?_ x y
        rw [hs] at hcounter ⊢
        exact Interpreter.not_mem_ids_foldl_after c table is (Nat.lt_succ_self _) hcounter
    · cases hp with
      | inert hinert => exact absurd hinert (Instruction.not_inert_of_cut? hcut)
      | colour hb => cases hcut
      | swap hb₁ hb₂ hsize hnew₁ hnew₂ => cases hcut
      | merge hb₁ hb₂ haligned hcounter => cases hcut
      | cut hcut' hb' hp =>
        rw [hcut] at hcut'
        cases hcut'
        rw [hb] at hb'
        cases hb'
        refine Interpreter.seenAt_cutInto hsep hcut hb hp hd.blocks hnew hg ?_ x y
        intro leaf hl hstraddles
        cases hfill : leaf.fill with
        | solid colour => exact ⟨colour, rfl⟩
        | image anchor => exact absurd hfill (himage leaf hl hstraddles anchor)
  have hseen' : t.canvas.SeenAlike s.canvas := hseen.symm
  exact ⟨hseen.draw_eq_ok hd.size hd.source hin,
    hseen'.draw_eq_ok hd.size.symm hd.source.symm (hseen.inside hd.size hin)⟩

/-- The left half of the merged block shows the source image, and the cut runs through the
white half. -/
theorem draw_eq_ok_iff_of_cut_beside_image :
    let layout : Layout :=
      { size := .ofCoordinates 4 2
        presets :=
          [{ id := "a", bottomLeft := .origin, topRight := .ofCoordinates 2 2,
             anchor := some .origin },
           { id := "b", bottomLeft := .ofCoordinates 2 0, topRight := .ofCoordinates 4 2,
             colour := some .white }]
        sourcePixels := some (Array.replicate 8 .transparent) }
    ∃ c s cost t f, Canvas.ofLayout layout = .ok c ∧
      s = [.merge "a" "b"].foldl Interpreter.after (.ofCanvas c .legacy) ∧ s.canvas.Separated ∧
        Edit.apply (.verticalCut "1" 3) s = .ok cost t ∧ s.canvas.draw {} = .ok f ∧
          t.canvas.draw {} = .ok f := by
  intro layout
  obtain ⟨c, hc⟩ : ∃ c, Canvas.ofLayout layout = .ok c := ⟨_, rfl⟩
  obtain ⟨s, hs⟩ : ∃ s, s = [.merge "a" "b"].foldl Interpreter.after (.ofCanvas c .legacy) :=
    ⟨_, rfl⟩
  obtain ⟨f, hf⟩ : ∃ f, s.canvas.draw {} = .ok f := by
    have hok : (s.canvas.draw {}).isOk := by
      cases hc
      rw [hs]
      decide +kernel
    cases hdraw : s.canvas.draw {} with
    | ok f => exact ⟨f, rfl⟩
    | error e =>
      rw [hdraw] at hok
      cases hok
  obtain ⟨cost, t, ht, -⟩ : ∃ cost t, Edit.apply (.verticalCut "1" 3) s = .ok cost t ∧ True := by
    cases hc
    rw [hs]
    refine Interpreter.exists_apply_of_accepts ?_
    decide +kernel
  obtain ⟨left, hleft⟩ : ∃ left, Leaf.ofCorners .origin (.ofCoordinates 2 2) (.image .origin)
    = .ok left := ⟨_, rfl⟩
  obtain ⟨right, hright⟩ : ∃ right, Leaf.ofCorners (.ofCoordinates 2 0) (.ofCoordinates 4 2)
    (.solid .white) = .ok right := ⟨_, rfl⟩
  have hentries : s.canvas.blocks.entries = [("1", .complex c.bounds [left, right])] := by
    cases hc
    cases hleft
    cases hright
    rw [hs]
    decide +kernel
  have hinside : ∀ leaf ∈ [left, right], c.bounds.Contains leaf.rect := by
    cases hc
    cases hleft
    cases hright
    decide +kernel
  have hleaves : ∀ leaf ∈ [left, right],
      leaf.rect.topRight.x ≤ 3 ∨ leaf.fill = .solid .white := by
    cases hleft
    cases hright
    decide
  have hb : s.canvas.get? "1" = some (.complex c.bounds [left, right]) :=
    Registry.get?_of_mem (e := ("1", _)) (by rw [hentries]; exact List.mem_singleton_self _)
  have hsep : s.canvas.Separated := by
    constructor
    · intro e he e' he' hne
      rw [hentries, List.mem_singleton] at he he'
      rw [he, he'] at hne
      exact absurd rfl hne
    · intro e he
      rw [hentries, List.mem_singleton] at he
      rw [he]
      exact hinside
  have hnew : ∀ m < 2, Edit.pieceId "1" m ∉ s.canvas.ids := by
    have hids : s.canvas.ids = ["1"] := congrArg (·.map (·.1)) hentries
    rw [hids]
    decide
  have himage : ∀ leaf ∈ [left, right], leaf.Straddles (.verticalCut "1" 3) →
      ∀ anchor, leaf.fill ≠ .image anchor := by
    rintro leaf hl ⟨axis, position, hline, -, hhigh⟩ anchor hfill
    rcases hleaves leaf hl with hx | hwhite
    · cases axis with
      | x =>
        have hposition : position = 3 := hline
        simp only [Rect.high] at hhigh
        omega
      | y => exact hline
    · rw [hwhite] at hfill
      cases hfill
  have hiff := draw_eq_ok_iff_of_cut_or_merge c .legacy _ hs hsep ht
    (.inr ⟨"1", 2, _, rfl, hb, hnew, himage⟩) {} f
  exact ⟨c, s, cost, t, f, hc, hs, hsep, ht, hf, hiff.1 hf⟩

end Easel
