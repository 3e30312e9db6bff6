import Easel.Proofs.Entries
import Easel.Proofs.Relocation

/-!
# What an instruction makes of a canvas

`Edit` is work that may have touched the canvas when it fails. Here the same
instructions are read off the state as a whole: `Interpreter.outcome` is the price
of an instruction, the blocks it leaves and the counter after it, or the cause of
its refusal, and it touches nothing. `apply_of_outcome_error` and
`apply_of_outcome_ok` say that carrying out an instruction comes to just that. The
operands are taken away before the new blocks are put down, so this rests on the
promise of a canvas that its blocks lie inside: no piece, no exchanged content and
no union of blocks reaches beyond (`makes_replace`, `swap_follows`, `merge_follows`).

Main statement: `apply_refused_eq`, a refused instruction leaves everything as it
was.
-/

namespace Easel

/-! ## Canvases with other blocks -/

namespace Canvas

/-- The canvas `d` is the canvas `c` with other blocks. -/
structure Rearranged (c : Canvas) (blocks : Registry Block) (d : Canvas) : Prop where
  size : d.size = c.size
  background : d.background = c.background
  source : d.source = c.source
  blocks : d.blocks = blocks

theorem Rearranged.refl (c : Canvas) : c.Rearranged c.blocks c :=
  ⟨rfl, rfl, rfl, rfl⟩

theorem Rearranged.trans {c d e : Canvas} {r r' : Registry Block} (h : c.Rearranged r d)
    (h' : d.Rearranged r' e) : c.Rearranged r' e :=
  ⟨h'.size.trans h.size, h'.background.trans h.background, h'.source.trans h.source, h'.blocks⟩

theorem Rearranged.contains_bounds_iff {c d : Canvas} {blocks : Registry Block} {r : Rect}
    (h : c.Rearranged blocks d) : d.bounds.Contains r ↔ c.bounds.Contains r := by
  simp only [Rect.contains_iff, bounds, h.size]

theorem rearranged_erase (c : Canvas) (id : String) :
    c.Rearranged (c.blocks.erase id) (c.erase id) :=
  ⟨rfl, rfl, rfl, rfl⟩

theorem rearranged_insert {c d : Canvas} {id : String} {b : Block} (h : c.insert id b = .ok d) :
    c.Rearranged (c.blocks.insert id b) d := by
  unfold insert at h
  split at h
  · cases h
    exact ⟨rfl, rfl, rfl, rfl⟩
  · cases h

/-- Only the upper-right corner of a rectangle can reach beyond a canvas. -/
theorem contains_bounds_iff {c : Canvas} {r : Rect} :
    c.bounds.Contains r ↔ r.topRight.x ≤ c.size.x ∧ r.topRight.y ≤ c.size.y := by
  rw [Rect.contains_iff]
  simp only [bounds, Point.origin]
  omega

theorem contains_bounds_of_get? {c : Canvas} {id : String} {b : Block}
    (h : c.get? id = some b) : c.bounds.Contains b.rect :=
  contains_bounds_iff.2 (c.topRight_le _ (Registry.mem_of_get?_eq_some h))

/-- On a canvas of at most `2 ^ 31` columns and rows all sums of coordinates stay in range. -/
theorem not_overreaches {c : Canvas} {r target : Rect} (hr : c.bounds.Contains r)
    (ht : c.bounds.Contains target) (hx : c.size.x ≤ 2147483648) (hy : c.size.y ≤ 2147483648) :
    ¬ r.Overreaches target := by
  rw [contains_bounds_iff] at hr ht
  have htx := target.x_lt
  have hty := target.y_lt
  simp only [Rect.Overreaches]
  omega

theorem mem_leaves {c : Canvas} {leaf : Leaf} :
    leaf ∈ c.leaves ↔ ∃ e ∈ c.blocks.entries, leaf ∈ e.2.leaves := by
  unfold leaves Registry.values
  rw [List.flatMap_map, List.mem_flatMap]

/-- Leaves inside their blocks are inside the canvas. -/
theorem contains_bounds_of_mem_leaves {c : Canvas}
    (h : ∀ e ∈ c.blocks.entries, ∀ leaf ∈ e.2.leaves, e.2.rect.Contains leaf.rect) :
    ∀ leaf ∈ c.leaves, c.bounds.Contains leaf.rect := by
  intro leaf hl
  obtain ⟨e, he, hl⟩ := mem_leaves.1 hl
  exact (contains_bounds_iff.2 (c.topRight_le e he)).trans (h e he leaf hl)

/-- A canvas without blocks is of positive size. -/
theorem of_bare {size : Point} {background : Rgba} {c : Canvas}
    (h : bare size background = .ok c) : size.Positive ∧ c.blocks = ∅ := by
  unfold bare at h
  split at h
  next hpos =>
    cases h
    exact ⟨hpos, rfl⟩
  next => cases h

/-- A block that lies inside is put on the canvas. -/
theorem exists_insert {c : Canvas} (id : String) {b : Block} (h : c.bounds.Contains b.rect) :
    ∃ d, c.insert id b = .ok d ∧ c.Rearranged (c.blocks.insert id b) d := by
  unfold insert
  rw [dif_pos h]
  exact ⟨_, rfl, rfl, rfl, rfl, rfl⟩

/-- A canvas of positive size can be without blocks. -/
theorem exists_bare {size : Point} (h : size.Positive) (background : Rgba) :
    ∃ c, bare size background = .ok c ∧ c.size = size ∧ c.background = background ∧
      c.source = none ∧ c.blocks = ∅ := by
  unfold bare
  rw [dif_pos h]
  exact ⟨_, rfl, rfl, rfl, rfl, rfl⟩

/-- A blank canvas of positive size exists and has one block, which covers it. -/
theorem exists_blank {size : Point} (h : size.Positive) (background : Rgba) :
    ∃ c, blank size background = .ok c ∧ c.size = size ∧ c.source = none ∧
      c.blocks.entries = [(rootId, .simple { rect := c.bounds, fill := .solid background })] := by
  obtain ⟨bare, hbare, hsize, -, hsource, hblocks⟩ := exists_bare h background
  obtain ⟨d, hd, hr⟩ := exists_insert (c := bare) rootId
    (b := .simple { rect := bare.bounds, fill := .solid background }) (Rect.Contains.refl _)
  have hbounds : d.bounds = bare.bounds := by
    simp only [bounds, hr.size]
  refine ⟨d, bind_eq_ok_iff.2 ⟨bare, hbare, hd⟩, hr.size.trans hsize, hr.source.trans hsource, ?_⟩
  rw [hr.blocks, hblocks, hbounds]
  rfl

/-- What is blank begins with one block, which covers the canvas. -/
theorem of_blank {size : Point} {background : Rgba} {c : Canvas}
    (h : blank size background = .ok c) : c.size = size ∧
      c.blocks.entries = [(rootId, .simple { rect := c.bounds, fill := .solid background })] := by
  obtain ⟨bare, hbare, -⟩ := bind_eq_ok_iff.1 h
  obtain ⟨d, hd, hsize, -, hentries⟩ := exists_blank (of_bare hbare).1 background
  rw [h] at hd
  cases hd
  exact ⟨hsize, hentries⟩

theorem block_eq_ok_iff {c : Canvas} {id : String} {b : Block} :
    c.block id = .ok b ↔ c.get? id = some b := by
  unfold block
  cases c.get? id <;> simp

end Canvas

/-! ## The outcome of an instruction -/

/-- What an instruction makes of a state. -/
structure Outcome where
  /-- The price. -/
  cost : Nat
  /-- The blocks after it. -/
  blocks : Registry Block
  /-- The number that names the last merged block. -/
  counter : Nat

/-- Pieces of a block with their names. -/
def pieceEntries {α : Type} (id : String) (pieces : List α) : List (String × α) :=
  pieces.zipIdx.map fun (piece, number) => (Edit.pieceId id number, piece)

theorem map_snd_pieceEntries {α : Type} (id : String) (pieces : List α) :
    (pieceEntries id pieces).map (·.2) = pieces := by
  unfold pieceEntries
  rw [List.map_map]
  exact List.zipIdx_map_fst 0 pieces

theorem mem_of_mem_pieceEntries {α : Type} {id : String} {pieces : List α} {e : String × α}
    (h : e ∈ pieceEntries id pieces) : e.2 ∈ pieces := by
  obtain ⟨⟨piece, number⟩, hp, rfl⟩ := List.mem_map.1 h
  exact List.fst_mem_of_mem_zipIdx hp

namespace Interpreter

/-- The price of an instruction on blocks of the given area. -/
def priceOf (s : Interpreter) (kind : Instruction.Kind) (operand : Nat) : Nat :=
  s.table.price kind operand s.canvas.area

/-- Pieces stand in the place of a block that is cut. -/
def cutInto (s : Interpreter) (kind : Instruction.Kind) (id : String) (block : Block)
    (pieces : List Block) : Outcome where
  cost := s.priceOf kind block.area
  blocks := (s.canvas.blocks.erase id).insertAll (pieceEntries id pieces)
  counter := s.mergeCounter

/-- A block of one leaf stands in the place of a block that is recoloured. -/
def recoloured (s : Interpreter) (id : String) (colour : Rgba) (block : Block) : Outcome where
  cost := s.priceOf .colour block.area
  blocks := s.canvas.blocks.insert id (.simple { rect := block.rect, fill := .solid colour })
  counter := s.mergeCounter

/-- Two names keep their places and have new contents. -/
def swapped (s : Interpreter) (id₁ id₂ : String) (block new₁ new₂ : Block) : Outcome where
  cost := s.priceOf .swap block.area
  blocks := (s.canvas.blocks.insert id₁ new₁).insert id₂ new₂
  counter := s.mergeCounter

theorem names_swapped {s : Interpreter} {id₁ id₂ : String} {block₁ block₂ new₁ new₂ : Block}
    (hb₁ : s.canvas.get? id₁ = some block₁) (hb₂ : s.canvas.get? id₂ = some block₂) :
    (s.swapped id₁ id₂ block₁ new₁ new₂).blocks.names = s.canvas.ids := by
  have hmem : id₂ ∈ (s.canvas.blocks.insert id₁ new₁).names := by
    rw [Registry.names_insert_of_get? hb₁]
    exact Registry.mem_names_of_get? hb₂
  rw [swapped, Registry.names_insert, if_pos hmem, Registry.names_insert_of_get? hb₁]
  rfl

/-- A block with a new number stands for two blocks that are joined. -/
def merged (s : Interpreter) (id₁ id₂ : String) (block₁ block₂ : Block) : Outcome where
  cost := s.priceOf .merge (max block₁.area block₂.area)
  blocks := ((s.canvas.blocks.erase id₁).erase id₂).insert (toString (s.mergeCounter + 1))
    (.complex (block₁.rect.hull block₂.rect) (block₁.leaves ++ block₂.leaves))
  counter := s.mergeCounter + 1

/-- A line that cuts a block. -/
def lineOutcome (s : Interpreter) (id : String) (axis : Axis) (position : Coordinate) :
    Except Error Outcome := do
  let block ← s.canvas.block id
  if block.rect.low axis ≤ position.val ∧ position.val ≤ block.rect.high axis then
    let pieces ← block.cutLine axis position
    return s.cutInto (Edit.cutKind axis) id block pieces.toList
  else
    throw (.lineOutside position.val id block.rect)

/-- What an instruction makes of a state, or why it is refused. -/
def outcome (s : Interpreter) : Instruction → Except Error Outcome
  | .blank | .comment _ => .ok { cost := 0, blocks := s.canvas.blocks, counter := s.mergeCounter }
  | .colour id colour => do
    let block ← s.canvas.block id
    return s.recoloured id colour block
  | .pointCut id point => do
    let block ← s.canvas.block id
    if point.StrictlyInside block.rect then
      let pieces ← block.cutPoint point
      return s.cutInto .pointCut id block pieces.toList
    else
      throw (.pointOutside point id block.rect)
  | .verticalCut id x => s.lineOutcome id .x x
  | .horizontalCut id y => s.lineOutcome id .y y
  | .swap id₁ id₂ => do
    let block₁ ← s.canvas.block id₁
    let block₂ ← s.canvas.block id₂
    if block₁.size = block₂.size then
      let new₁ ← block₂.relocated block₁.rect
      let new₂ ← block₁.relocated block₂.rect
      return s.swapped id₁ id₂ block₁ new₁ new₂
    else
      throw (.sizesDiffer id₁ block₁.size id₂ block₂.size)
  | .merge id₁ id₂ => do
    let block₁ ← s.canvas.block id₁
    let block₂ ← s.canvas.block id₂
    if block₁.rect.Stacked block₂.rect ∨ block₁.rect.SideBySide block₂.rect then
      if s.mergeCounter + 1 < 18446744073709551616 then
        return s.merged id₁ id₂ block₁ block₂
      else
        throw .counterExhausted
    else
      throw (.notAligned id₁ block₁.rect id₂ block₂.rect)

end Interpreter

/-! ## Carrying out an instruction comes to its outcome -/

namespace Edit

/-- The work on `s` leaves the given blocks and does nothing else. -/
def Makes (x : Edit Unit) (s : Interpreter) (blocks : Registry Block) : Prop :=
  ∃ d, s.canvas.Rearranged blocks d ∧ x s = .ok () { s with canvas := d }

theorem makes_insert {s : Interpreter} {id : String} {b : Block}
    (h : s.canvas.bounds.Contains b.rect) :
    Makes (insert id b) s (s.canvas.blocks.insert id b) := by
  obtain ⟨d, hd, hr⟩ := Canvas.exists_insert id h
  refine ⟨d, hr, ?_⟩
  show (check (s.canvas.insert id b) >>= fun canvas => modify fun s => { s with canvas }) s = _
  rw [hd]
  rfl

theorem makes_erase (s : Interpreter) (id : String) :
    Makes (erase id) s (s.canvas.blocks.erase id) :=
  ⟨_, s.canvas.rearranged_erase id, rfl⟩

/-- Work after work starts from the blocks that the first one leaves. -/
theorem Makes.bind {x : Edit Unit} {y : Edit Unit} {s : Interpreter} {r r' : Registry Block}
    (hx : Makes x s r)
    (hy : ∀ t : Interpreter, s.canvas.Rearranged r t.canvas → Makes y t r') :
    Makes (x >>= fun _ => y) s r' := by
  obtain ⟨d, hd, hxs⟩ := hx
  obtain ⟨e, he, hyt⟩ := hy { s with canvas := d } hd
  refine ⟨e, hd.trans he, ?_⟩
  simp only [Bind.bind, EStateM.bind, hxs, hyt]

/-- Blocks that lie inside are put on the canvas one after another. -/
theorem makes_insertAll {s : Interpreter} {es : List (String × Block)}
    (h : ∀ e ∈ es, s.canvas.bounds.Contains e.2.rect) :
    Makes (insertAll es) s (s.canvas.blocks.insertAll es) := by
  induction es generalizing s with
  | nil => exact ⟨s.canvas, Canvas.Rearranged.refl _, rfl⟩
  | cons e es ih =>
    refine (makes_insert (h e List.mem_cons_self)).bind fun t ht => ?_
    rw [Registry.insertAll_cons, ← ht.blocks]
    refine ih fun f hf => ?_
    exact ht.contains_bounds_iff.2 (h f (List.mem_cons_of_mem _ hf))

/-- The work on `s` is refused without a trace, or leaves what the outcome says. -/
def Follows (x : Edit Nat) (s : Interpreter) : Except Error Outcome → Prop
  | .error e => x s = .error (.refused e) s
  | .ok o => ∃ d, s.canvas.Rearranged o.blocks d ∧
      x s = .ok o.cost { s with canvas := d, mergeCounter := o.counter }

section
variable {s : Interpreter} {α : Type}

/-- Only what the work does on `s` counts. -/
theorem follows_congr {x y : Edit Nat} {g : Except Error Outcome} (hxy : x s = y s)
    (h : Follows y s g) : Follows x s g := by
  cases g with
  | error e => exact hxy.trans h
  | ok o =>
    obtain ⟨d, hd, hy⟩ := h
    exact ⟨d, hd, hxy.trans hy⟩

theorem follows_check {x : Except Error α} {f : α → Edit Nat} {g : α → Except Error Outcome}
    (h : ∀ a, x = .ok a → Follows (f a) s (g a)) : Follows (check x >>= f) s (x >>= g) := by
  cases x with
  | error e => rfl
  | ok a => exact h a rfl

theorem follows_block {id : String} {f : Block → Edit Nat} {g : Block → Except Error Outcome}
    (h : ∀ b, s.canvas.get? id = some b → Follows (f b) s (g b)) :
    Follows (block id >>= f) s (s.canvas.block id >>= g) :=
  follows_check fun b hb => h b (Canvas.block_eq_ok_iff.1 hb)

theorem follows_require {p : Prop} [Decidable p] {e : Error} {f : Unit → Edit Nat}
    {g : Except Error Outcome} (h : p → Follows (f ()) s g) :
    Follows (require p e >>= f) s (if p then g else throw e) := by
  by_cases hp : p
  · rw [if_pos hp]
    refine follows_congr ?_ (h hp)
    simp only [bind, EStateM.bind, require_eq, if_pos hp]
  · rw [if_neg hp]
    show (require p e >>= f) s = .error (.refused e) s
    simp only [bind, EStateM.bind, require_eq, if_neg hp]

theorem price_eq (kind : Instruction.Kind) (operand : Nat) (s : Interpreter) :
    price kind operand s = .ok (s.priceOf kind operand) s := rfl

theorem follows_price {kind : Instruction.Kind} {operand : Nat} {f : Nat → Edit Nat}
    {g : Except Error Outcome} (h : Follows (f (s.priceOf kind operand)) s g) :
    Follows (price kind operand >>= f) s g :=
  follows_congr (by simp only [bind, EStateM.bind, price_eq]) h

/-- Work on the blocks is followed by work that only sets the counter. -/
theorem Makes.follows {x : Edit Unit} {y : Edit Nat} {o : Outcome} (hx : Makes x s o.blocks)
    (hy : ∀ t : Interpreter, t.mergeCounter = s.mergeCounter →
      y t = .ok o.cost { t with mergeCounter := o.counter }) :
    Follows (x >>= fun _ => y) s (.ok o) := by
  obtain ⟨d, hd, hxs⟩ := hx
  refine ⟨d, hd, ?_⟩
  simp only [Bind.bind, EStateM.bind, hxs]
  exact hy { s with canvas := d } rfl

/-- Work on the blocks is all that is done. -/
theorem follows_of_makes {x : Edit Unit} {o : Outcome} (hx : Makes x s o.blocks)
    (hcounter : o.counter = s.mergeCounter) :
    Follows (x >>= fun _ => return o.cost) s (.ok o) := by
  refine hx.follows fun t ht => ?_
  rw [hcounter, ← ht]
  rfl

end

theorem colour_follows (s : Interpreter) (id : String) (c : Rgba) :
    Follows (colour id c) s (s.outcome (.colour id c)) := by
  refine follows_block fun b hb => follows_price ?_
  have hin : s.canvas.bounds.Contains b.rect := Canvas.contains_bounds_of_get? hb
  exact follows_of_makes (o := s.recoloured id c b)
    (makes_insert (b := .simple { rect := b.rect, fill := .solid c }) hin) rfl

/-- Pieces that lie in their block are put in its place. -/
theorem makes_replace {s : Interpreter} {id : String} {b : Block} {pieces : List Block}
    (hb : s.canvas.get? id = some b) (h : ∀ piece ∈ pieces, b.rect.Contains piece.rect) :
    Makes (replace id pieces) s
      ((s.canvas.blocks.erase id).insertAll (pieceEntries id pieces)) := by
  refine (makes_erase s id).bind fun t ht => ?_
  rw [← ht.blocks]
  refine makes_insertAll fun e he => ht.contains_bounds_iff.2 ?_
  exact (Canvas.contains_bounds_of_get? hb).trans (h _ (mem_of_mem_pieceEntries he))

theorem pointCut_follows (s : Interpreter) (id : String) (point : Point) :
    Follows (pointCut id point) s (s.outcome (.pointCut id point)) := by
  refine follows_block fun b hb => follows_require fun _ => follows_price ?_
  refine follows_check fun pieces hpieces => ?_
  exact follows_of_makes (o := s.cutInto .pointCut id b pieces.toList)
    (makes_replace hb (Block.Cut.point id hpieces).contains) rfl

theorem lineCut_follows (s : Interpreter) (id : String) (axis : Axis) (position : Coordinate) :
    Follows (lineCut id axis position) s (s.lineOutcome id axis position) := by
  refine follows_block fun b hb => follows_require fun _ => follows_price ?_
  refine follows_check fun pieces hpieces => ?_
  have hin : ∀ piece ∈ pieces.toList, b.rect.Contains piece.rect := by
    cases axis with
    | x => exact (Block.Cut.vertical id hpieces).contains
    | y => exact (Block.Cut.horizontal id hpieces).contains
  exact follows_of_makes (o := s.cutInto (cutKind axis) id b pieces.toList)
    (makes_replace hb hin) rfl

theorem swap_follows (s : Interpreter) (id₁ id₂ : String) :
    Follows (swap id₁ id₂) s (s.outcome (.swap id₁ id₂)) := by
  refine follows_block fun b₁ hb₁ => follows_block fun b₂ hb₂ => ?_
  refine follows_require fun _ => follows_price ?_
  refine follows_check fun new₁ hnew₁ => follows_check fun new₂ hnew₂ => ?_
  have hin₁ : s.canvas.bounds.Contains new₁.rect := by
    rw [Block.rect_of_relocated hnew₁]
    exact Canvas.contains_bounds_of_get? hb₁
  have hin₂ : s.canvas.bounds.Contains new₂.rect := by
    rw [Block.rect_of_relocated hnew₂]
    exact Canvas.contains_bounds_of_get? hb₂
  -- nothing can fail from here on, also not the second insertion after the first
  have hmakes : Makes (insert id₁ new₁ >>= fun _ => insert id₂ new₂) s
      (s.swapped id₁ id₂ b₁ new₁ new₂).blocks := by
    refine (makes_insert hin₁).bind fun t ht => ?_
    show Makes _ t ((s.canvas.blocks.insert id₁ new₁).insert id₂ new₂)
    rw [← ht.blocks]
    exact makes_insert (ht.contains_bounds_iff.2 hin₂)
  have h := follows_of_makes hmakes rfl
  rwa [bind_assoc] at h

theorem merge_follows (s : Interpreter) (id₁ id₂ : String) :
    Follows (merge id₁ id₂) s (s.outcome (.merge id₁ id₂)) := by
  refine follows_block fun b₁ hb₁ => follows_block fun b₂ hb₂ => ?_
  refine follows_require fun _ => follows_price ?_
  refine follows_congr (y := require (s.mergeCounter + 1 < 18446744073709551616) _ >>= _) rfl
    (follows_require fun _ => ?_)
  let joined : Block := .complex (b₁.rect.hull b₂.rect) (b₁.leaves ++ b₂.leaves)
  have hin : s.canvas.bounds.Contains joined.rect :=
    Rect.contains_hull (Canvas.contains_bounds_of_get? hb₁) (Canvas.contains_bounds_of_get? hb₂)
  -- both operands are gone when the union is put down, so it has to be accepted
  have hmakes : Makes (erase id₁ >>= fun _ => erase id₂ >>= fun _ =>
      insert (toString (s.mergeCounter + 1)) joined) s (s.merged id₁ id₂ b₁ b₂).blocks := by
    refine (makes_erase s id₁).bind fun t ht => ?_
    show Makes _ t (((s.canvas.blocks.erase id₁).erase id₂).insert _ joined)
    rw [← ht.blocks]
    refine (makes_erase t id₂).bind fun u hu => ?_
    rw [← hu.blocks]
    exact makes_insert ((ht.trans hu).contains_bounds_iff.2 hin)
  have h := hmakes.follows (o := s.merged id₁ id₂ b₁ b₂) (y := do
    modify fun t => { t with mergeCounter := s.mergeCounter + 1 }
    return s.priceOf .merge (max b₁.area b₂.area)) fun t _ => rfl
  rwa [bind_assoc, bind_assoc] at h

theorem charge_eq (cost : Nat) (s : Interpreter) :
    charge cost s =
      if s.totalCost + cost < 18446744073709551616 then
        .ok cost { s with totalCost := s.totalCost + cost }
      else
        .error (.overflow .add) s := by
  show (lift (addAmounts s.totalCost cost) >>= fun totalCost =>
    (modify fun s => { s with totalCost }) >>= fun _ => return cost) s = _
  unfold addAmounts
  by_cases h : s.totalCost + cost < 18446744073709551616
  · rw [if_pos h, if_pos h]
    rfl
  · rw [if_neg h, if_neg h]
    rfl

/-- An instruction does nothing, or it is work that comes to its outcome and is
then charged. -/
theorem apply_cases (s : Interpreter) (i : Instruction) :
    i.Inert ∨ ∃ x, apply i = x >>= charge ∧ Follows x s (s.outcome i) := by
  cases i with
  | blank => exact .inl trivial
  | comment text => exact .inl trivial
  | colour id c => exact .inr ⟨_, rfl, colour_follows s id c⟩
  | pointCut id point => exact .inr ⟨_, rfl, pointCut_follows s id point⟩
  | verticalCut id x => exact .inr ⟨_, rfl, lineCut_follows s id .x x⟩
  | horizontalCut id y => exact .inr ⟨_, rfl, lineCut_follows s id .y y⟩
  | swap id₁ id₂ => exact .inr ⟨_, rfl, swap_follows s id₁ id₂⟩
  | merge id₁ id₂ => exact .inr ⟨_, rfl, merge_follows s id₁ id₂⟩

section
variable {s : Interpreter} {i : Instruction} {o : Outcome} {e : Error}

theorem outcome_of_inert (h : i.Inert) :
    s.outcome i = .ok { cost := 0, blocks := s.canvas.blocks, counter := s.mergeCounter } := by
  cases i <;> first | rfl | exact absurd h id

theorem apply_of_inert (h : i.Inert) : apply i s = .ok 0 s := by
  cases i <;> first | rfl | exact absurd h id

/-- A refusal leaves everything as it was. -/
theorem apply_of_outcome_error (h : s.outcome i = .error e) :
    apply i s = .error (.refused e) s := by
  rcases apply_cases s i with hi | ⟨x, hi, hx⟩
  · rw [outcome_of_inert hi] at h
    cases h
  · rw [h] at hx
    have hxs : x s = .error (.refused e) s := hx
    rw [hi]
    simp only [bind, EStateM.bind, hxs]

/-- An instruction that is not refused does what its outcome says. Only the sum of
all prices can still leave its range, and then the blocks have been changed. -/
theorem apply_of_outcome_ok (h : s.outcome i = .ok o) :
    ∃ d, s.canvas.Rearranged o.blocks d ∧
      (apply i s = .ok o.cost { s with
          canvas := d, mergeCounter := o.counter, totalCost := s.totalCost + o.cost } ∨
        18446744073709551616 ≤ s.totalCost + o.cost ∧
          apply i s = .error (.overflow .add)
            { s with canvas := d, mergeCounter := o.counter }) := by
  rcases apply_cases s i with hi | ⟨x, hi, hx⟩
  · rw [outcome_of_inert hi] at h
    cases h
    exact ⟨s.canvas, Canvas.Rearranged.refl _, .inl (apply_of_inert hi)⟩
  · rw [h] at hx
    obtain ⟨d, hd, hxs⟩ := hx
    refine ⟨d, hd, ?_⟩
    rw [hi]
    simp only [bind, EStateM.bind, hxs, charge_eq]
    by_cases hlt : s.totalCost + o.cost < 18446744073709551616
    · exact .inl (if_pos hlt)
    · exact .inr ⟨Nat.not_lt.1 hlt, if_neg hlt⟩

/-- An instruction that is refused leaves the canvas, the sum of all prices and the
counter as they were. -/
theorem apply_refused_eq {t : Interpreter} (h : apply i s = .error (.refused e) t) : t = s := by
  cases ho : s.outcome i with
  | error f =>
    rw [apply_of_outcome_error ho] at h
    cases h
    rfl
  | ok o =>
    obtain ⟨d, -, hok | ⟨-, hover⟩⟩ := apply_of_outcome_ok ho
    · rw [hok] at h
      cases h
    · rw [hover] at h
      cases h

end

/-- The second of two contents cannot be moved: its leaf reaches so far beyond the
block that a corner leaves its range on the way. -/
theorem apply_refused_eq_stuck_swap : ∃ c,
    (do let c ← Canvas.blank (.ofCoordinates 4 4) .white
        let leaf ← Leaf.ofCorners .origin (.ofCoordinates 4294967295 1) (.solid .white)
        let c ← c.insert "1" (← Block.ofCorners .origin (.ofCoordinates 2 4) [leaf])
        let leaf ← Leaf.ofCorners (.ofCoordinates 2 0) (.ofCoordinates 4 4) (.solid .white)
        c.insert "2" (.simple leaf)) = .ok c ∧
      ∃ e t, apply (.swap "1" "2") (.ofCanvas c .legacy) = .error (.refused e) t ∧
        t = .ofCanvas c .legacy := by
  have hrefused : ∀ c, (∃ e, (Interpreter.ofCanvas c .legacy).outcome (.swap "1" "2") = .error e) →
      ∃ e t, apply (.swap "1" "2") (.ofCanvas c .legacy) = .error (.refused e) t ∧
        t = .ofCanvas c .legacy := by
    intro c h
    obtain ⟨e, he⟩ := h
    have h := apply_of_outcome_error he
    exact ⟨e, _, h, apply_refused_eq h⟩
  exact ⟨_, rfl, hrefused _ ⟨_, rfl⟩⟩

end Edit

end Easel
