import Easel.Proofs.Independence

/-!
# Which instructions are refused, and why

An instruction looks up its blocks, checks them and builds new ones, and each of these can be
refused. Most of what is built cannot: the pieces of a line or a point that was checked exist,
leaves are routed to them without a failure, a moved rectangle keeps its extent, and no piece,
content or union reaches beyond the canvas. So a short list of causes is left. Two of them are
not among the checks: a line along an edge is found out when the second piece is built, and a
content is `Stuck` where a corner or an anchor leaves its range on the way.

`FailsAs` says of work by which category of causes it is refused, if at all.

Main statement: `answers_exactly`, with one field of `Answers` for each kind of instruction.
-/

namespace Easel

/-! ## Categories of causes -/

/-- Where the work is refused, the cause is of the given category. -/
def FailsAs {α : Type} (category : Category) (x : Except Error α) : Prop :=
  ∀ e, x = .error e → e.category = category

namespace FailsAs

variable {α β : Type} {category : Category}

theorem ok (a : α) : FailsAs category (.ok a) := nofun

theorem error {e : Error} (h : e.category = category) :
    FailsAs category (.error e : Except Error α) := by
  intro e' he
  cases he
  exact h

/-- Work in two steps fails for the causes of both. -/
theorem bind {x : Except Error α} {f : α → Except Error β} (hx : FailsAs category x)
    (hf : ∀ a, FailsAs category (f a)) : FailsAs category (x >>= f) := by
  intro e h
  rcases bind_eq_error_iff.1 h with hfirst | ⟨a, -, hrest⟩
  · exact hx e hfirst
  · exact hf a e hrest

/-- Work on a list fails for the causes of its items. -/
theorem mapM {f : α → Except Error β} {as : List α} (hf : ∀ a ∈ as, FailsAs category (f a)) :
    FailsAs category (as.mapM f) := by
  intro e h
  obtain ⟨a, ha, hfail⟩ := exists_of_mapM_eq_error h
  exact hf a ha e hfail

end FailsAs

namespace Rect

/-- Corners that make no rectangle make no block. -/
theorem failsAs_ofCorners (p q : Point) : FailsAs .invalidBlock (ofCorners p q) := by
  unfold ofCorners
  split
  · exact .error rfl
  · split
    · exact .ok _
    · exact .error rfl

theorem failsAs_split (r : Rect) (axis : Axis) (position : Coordinate) :
    FailsAs .invalidBlock (r.split axis position) := by
  cases axis with
  | x => exact (failsAs_ofCorners _ _).bind fun _ => (failsAs_ofCorners _ _).bind fun _ => .ok _
  | y => exact (failsAs_ofCorners _ _).bind fun _ => (failsAs_ofCorners _ _).bind fun _ => .ok _

theorem low_lt_high (r : Rect) (axis : Axis) : r.low axis < r.high axis := by
  cases axis
  · exact r.x_lt
  · exact r.y_lt

theorem failsAs_moveCorner (p a b : Point) : FailsAs .invalidBlock (moveCorner p a b) := by
  unfold moveCorner
  split
  · exact .ok _
  · exact .error rfl

/-- A rectangle that leaves its range on a move makes no block. -/
theorem failsAs_offset (r : Rect) (a b : Point) : FailsAs .invalidBlock (r.offset a b) :=
  (failsAs_moveCorner _ a b).bind fun _ => (failsAs_moveCorner _ a b).bind fun _ =>
    failsAs_ofCorners _ _

end Rect

/-- An anchor that leaves its range on a move makes no block. -/
theorem Fill.failsAs_rebased (f : Fill) (a b : Point) : FailsAs .invalidBlock (f.rebased a b) := by
  unfold rebased
  split
  · exact .ok _
  · split
    · exact .ok _
    · exact .error rfl

/-- The leaves are routed without a failure, so a cut fails as its rectangle does. -/
theorem Block.failsAs_cutLine (block : Block) (axis : Axis) (position : Coordinate) :
    FailsAs .invalidBlock (block.cutLine axis position) := by
  refine (Rect.failsAs_split _ axis position).bind fun pieces => ?_
  cases block with
  | simple leaf => exact .ok _
  | complex rect leaves =>
    show FailsAs _ (routeLine axis position leaves >>= _)
    rw [routeLine_eq]
    exact .ok _

/-- A content fails to be moved as its leaves and anchors do. -/
theorem Block.failsAs_relocated (block : Block) (target : Rect) :
    FailsAs .invalidBlock (block.relocated target) := by
  cases block with
  | simple leaf => exact (Fill.failsAs_rebased _ _ _).bind fun _ => .ok _
  | complex rect leaves =>
    refine (FailsAs.mapM fun leaf _ => ?_).bind fun _ => .ok _
    exact (Rect.failsAs_offset _ _ _).bind fun _ => (Fill.failsAs_rebased _ _ _).bind fun _ => .ok _

/-! ## Answers -/

theorem Canvas.block_eq_error {c : Canvas} {id : String} (h : id ∉ c.ids) :
    c.block id = .error (.blockNotFound id) := by
  unfold block
  rw [show c.get? id = none from Registry.get?_eq_none_iff.2 h]

theorem Canvas.exists_get? {c : Canvas} {id : String} (h : id ∈ c.ids) :
    ∃ block, c.get? id = some block :=
  Option.ne_none_iff_exists'.1 fun hnone => Registry.get?_eq_none_iff.1 hnone h

/-- The cut along a line at a place on the given axis. -/
def Instruction.lineCut : Axis → String → Coordinate → Instruction
  | .x, id, x => .verticalCut id x
  | .y, id, y => .horizontalCut id y

namespace Interpreter

variable {s : Interpreter} {i : Instruction} {o : Outcome} {e : Error} {category : Category}

/-- The instruction is refused, for a cause of the given category. -/
def RefusedAs (s : Interpreter) (i : Instruction) (category : Category) : Prop :=
  ∃ e t, Edit.apply i s = .error (.refused e) t ∧ e.category = category

/-- An instruction with an outcome is carried out, if its price still fits. -/
theorem accepts_of_outcome_ok (h : s.outcome i = .ok o) (hfits : ¬ s.Overflows i) :
    s.Accepts i := by
  obtain ⟨d, -, hok | ⟨-, hover⟩⟩ := Edit.apply_of_outcome_ok h
  · unfold Accepts
    rw [hok]
    trivial
  · exact absurd ⟨_, _, hover⟩ hfits

/-- Only the sum of all prices decides whether the price of an instruction fits. -/
theorem overflows_iff_of_outcome_ok (h : s.outcome i = .ok o) (hi : ¬ i.Inert) :
    s.Overflows i ↔ 18446744073709551616 ≤ s.totalCost + o.cost := by
  obtain ⟨x, hx, hfollows⟩ := (Edit.apply_cases s i).resolve_left hi
  rw [h] at hfollows
  obtain ⟨d, -, hxs⟩ := hfollows
  unfold Overflows
  rw [hx]
  simp only [bind, EStateM.bind, hxs, Edit.charge_eq]
  by_cases hlt : s.totalCost + o.cost < 18446744073709551616
  · rw [if_pos hlt]
    refine iff_of_false (fun hover => ?_) (Nat.not_le.2 hlt)
    obtain ⟨_, _, heq⟩ := hover
    cases heq
  · rw [if_neg hlt]
    exact iff_of_true ⟨_, _, rfl⟩ (Nat.not_lt.1 hlt)

/-- An instruction with an outcome is not refused. -/
theorem not_refusedAs_of_outcome_ok (h : s.outcome i = .ok o) : ¬ s.RefusedAs i category := by
  intro hrefused
  obtain ⟨e, t, he, -⟩ := hrefused
  cases h.symm.trans (outcome_of_refused he).1

theorem not_accepts_of_outcome_error (h : s.outcome i = .error e) : ¬ s.Accepts i := by
  unfold Accepts
  rw [Edit.apply_of_outcome_error h]
  exact id

/-- An instruction without an outcome is refused for the cause that the outcome tells. -/
theorem refusedAs_of_outcome_error (h : s.outcome i = .error e) (hcause : e.category = category) :
    s.RefusedAs i category :=
  ⟨e, s, Edit.apply_of_outcome_error h, hcause⟩

/-- A refusal has one category. -/
theorem not_refusedAs_of_outcome_error {cause : Category} (h : s.outcome i = .error e)
    (hcause : e.category = cause) (hne : cause ≠ category) : ¬ s.RefusedAs i category := by
  intro hrefused
  obtain ⟨e', t, he, hcategory⟩ := hrefused
  cases h.symm.trans (outcome_of_refused he).1
  exact hne (hcause.symm.trans hcategory)

/-- The first operand that is missing is reported. -/
theorem outcome_of_missing {id : String}
    (h : i.operands.find? (· ∉ s.canvas.ids) = some id) :
    s.outcome i = .error (.blockNotFound id) := by
  have hone {id' : String} (hfind : [id'].find? (· ∉ s.canvas.ids) = some id) :
      s.canvas.block id' = .error (.blockNotFound id) := by
    have hmissing := List.find?_some hfind
    rw [List.mem_singleton.1 (List.mem_of_find?_eq_some hfind)] at hmissing ⊢
    exact Canvas.block_eq_error (of_decide_eq_true hmissing)
  -- the second operand is looked up only where the first one is there
  have htwo {id₁ id₂ : String} (hfind : [id₁, id₂].find? (· ∉ s.canvas.ids) = some id) :
      s.canvas.block id₁ = .error (.blockNotFound id) ∨
        ∃ block, s.canvas.block id₁ = .ok block ∧
          s.canvas.block id₂ = .error (.blockNotFound id) := by
    by_cases hid₁ : id₁ ∈ s.canvas.ids
    · rw [List.find?_cons_of_neg (by simpa using hid₁)] at hfind
      obtain ⟨block, hblock⟩ := Canvas.exists_get? hid₁
      exact .inr ⟨block, Canvas.block_eq_ok_iff.2 hblock, hone hfind⟩
    · rw [List.find?_cons_of_pos (by simpa using hid₁), Option.some.injEq] at hfind
      rw [← hfind]
      exact .inl (Canvas.block_eq_error hid₁)
  cases i with
  | blank => cases h
  | comment text => cases h
  | colour id' c => exact bind_eq_error_iff.2 (.inl (hone h))
  | pointCut id' p => exact bind_eq_error_iff.2 (.inl (hone h))
  | verticalCut id' x => exact bind_eq_error_iff.2 (.inl (hone h))
  | horizontalCut id' y => exact bind_eq_error_iff.2 (.inl (hone h))
  | swap id₁ id₂ | merge id₁ id₂ =>
    rcases htwo h with h₁ | ⟨block, h₁, h₂⟩
    · exact bind_eq_error_iff.2 (.inl h₁)
    · exact bind_eq_error_iff.2 (.inr ⟨block, h₁, bind_eq_error_iff.2 (.inl h₂)⟩)

section
variable {id id₁ id₂ : String} {block block₁ block₂ : Block}

/-- A block that is there can be given any colour. -/
theorem accepts_colour_iff {c : Rgba} (hfits : ¬ s.Overflows (.colour id c)) :
    s.Accepts (.colour id c) ↔ id ∈ s.canvas.ids := by
  by_cases hid : id ∈ s.canvas.ids
  · obtain ⟨block, hb⟩ := Canvas.exists_get? hid
    exact iff_of_true (accepts_of_outcome_ok (Performs.colour hb).outcome hfits) hid
  · have hmissing : s.outcome (.colour id c) = .error (.blockNotFound id) :=
      bind_eq_error_iff.2 (.inl (Canvas.block_eq_error hid))
    exact iff_of_false (not_accepts_of_outcome_error hmissing) hid

/-- A cut at a point is carried out inside and refused elsewhere, the edges included. -/
theorem pointCut_answer {p : Point} (hb : s.canvas.get? id = some block) :
    (¬ s.Overflows (.pointCut id p) →
      (s.Accepts (.pointCut id p) ↔ p.StrictlyInside block.rect)) ∧
    (s.RefusedAs (.pointCut id p) .invalidGeometry ↔ ¬ p.StrictlyInside block.rect) := by
  by_cases hin : p.StrictlyInside block.rect
  · obtain ⟨pieces, hp⟩ := Block.exists_cutPoint_iff.2 hin
    have ho := (Performs.cut rfl hb (.point id hp)).outcome
    exact ⟨fun hfits => iff_of_true (accepts_of_outcome_ok ho hfits) hin,
      iff_of_false (not_refusedAs_of_outcome_ok ho) (not_not_intro hin)⟩
  · have ho : s.outcome (.pointCut id p) = .error (.pointOutside p id block.rect) := by
      simp only [outcome, Canvas.block_eq_ok_iff.2 hb]
      exact if_neg hin
    exact ⟨fun _ => iff_of_false (not_accepts_of_outcome_error ho) hin,
      iff_of_true (refusedAs_of_outcome_error ho rfl) hin⟩

/-- A line along an edge is not refused until the second piece is built. -/
theorem lineOutcome_along_edge {axis : Axis} {position : Coordinate}
    (hb : s.canvas.get? id = some block)
    (hmeets : block.rect.low axis ≤ position.val ∧ position.val ≤ block.rect.high axis)
    (hedge : ¬ (block.rect.low axis < position.val ∧ position.val < block.rect.high axis)) :
    ∃ e, s.lineOutcome id axis position = .error e ∧ e.category = .invalidBlock := by
  obtain ⟨e, he⟩ : ∃ e, block.cutLine axis position = .error e := by
    cases hcut : block.cutLine axis position with
    | ok pieces => exact absurd (Block.exists_cutLine_iff.1 ⟨pieces, hcut⟩) hedge
    | error e => exact ⟨e, rfl⟩
  refine ⟨e, ?_, block.failsAs_cutLine axis position e he⟩
  rw [lineOutcome, Canvas.block_eq_ok_iff.2 hb]
  refine (if_pos hmeets).trans ?_
  rw [he]
  rfl

/-- A line that misses the block is refused for its place, and one along an edge for the piece
that would be empty. -/
theorem lineCut_answer {axis : Axis} {position : Coordinate}
    (hb : s.canvas.get? id = some block) :
    let i := Instruction.lineCut axis id position
    (¬ s.Overflows i → (s.Accepts i ↔
      block.rect.low axis < position.val ∧ position.val < block.rect.high axis)) ∧
    (s.RefusedAs i .invalidBlock ↔
      position.val = block.rect.low axis ∨ position.val = block.rect.high axis) ∧
    (s.RefusedAs i .invalidGeometry ↔
      position.val < block.rect.low axis ∨ block.rect.high axis < position.val) := by
  intro i
  have hextent := block.rect.low_lt_high axis
  have hline : s.outcome i = s.lineOutcome id axis position := by
    cases axis <;> rfl
  by_cases hin : block.rect.low axis < position.val ∧ position.val < block.rect.high axis
  · obtain ⟨pieces, hp⟩ := Block.exists_cutLine_iff.2 hin
    have ho := hline.trans (lineOutcome_eq_ok_iff.2 ⟨block, pieces, hb, hp, rfl⟩)
    refine ⟨fun hfits => iff_of_true (accepts_of_outcome_ok ho hfits) hin, ?_, ?_⟩
    · exact iff_of_false (not_refusedAs_of_outcome_ok ho) (by omega)
    · exact iff_of_false (not_refusedAs_of_outcome_ok ho) (by omega)
  by_cases hmeets : block.rect.low axis ≤ position.val ∧ position.val ≤ block.rect.high axis
  · obtain ⟨e, he, hcategory⟩ := lineOutcome_along_edge hb hmeets hin
    have ho := hline.trans he
    refine ⟨fun _ => iff_of_false (not_accepts_of_outcome_error ho) hin, ?_, ?_⟩
    · exact iff_of_true (refusedAs_of_outcome_error ho hcategory) (by omega)
    · exact iff_of_false (not_refusedAs_of_outcome_error ho hcategory (by decide)) (by omega)
  · have ho : s.outcome i = .error (.lineOutside position.val id block.rect) := by
      rw [hline, lineOutcome, Canvas.block_eq_ok_iff.2 hb]
      exact if_neg hmeets
    have hcategory : (Error.lineOutside position.val id block.rect).category = .invalidGeometry :=
      rfl
    refine ⟨fun _ => iff_of_false (not_accepts_of_outcome_error ho) hin, ?_, ?_⟩
    · exact iff_of_false (not_refusedAs_of_outcome_error ho hcategory (by decide)) (by omega)
    · exact iff_of_true (refusedAs_of_outcome_error ho hcategory) (by omega)

/-- Contents are moved one after the other, and either of them can be stuck. -/
theorem outcome_swap_of_stuck (hb₁ : s.canvas.get? id₁ = some block₁)
    (hb₂ : s.canvas.get? id₂ = some block₂) (hsize : block₁.size = block₂.size)
    (hstuck : block₁.Stuck block₂.rect ∨ block₂.Stuck block₁.rect) :
    ∃ e, s.outcome (.swap id₁ id₂) = .error e ∧ e.category = .invalidBlock := by
  have hmoves : s.outcome (.swap id₁ id₂) = (do
      let new₁ ← block₂.relocated block₁.rect
      let new₂ ← block₁.relocated block₂.rect
      return s.swapped id₁ id₂ block₁ new₁ new₂) := by
    simp only [outcome, Canvas.block_eq_ok_iff.2 hb₁, Canvas.block_eq_ok_iff.2 hb₂]
    exact if_pos hsize
  cases ho : s.outcome (.swap id₁ id₂) with
  | error e =>
    refine ⟨e, rfl, ?_⟩
    exact ((block₂.failsAs_relocated _).bind fun _ => (block₁.failsAs_relocated _).bind fun _ =>
      .ok _) e (hmoves.symm.trans ho)
  | ok o =>
    obtain ⟨new₁, hnew₁, hrest⟩ := bind_eq_ok_iff.1 (hmoves.symm.trans ho)
    obtain ⟨new₂, hnew₂, -⟩ := bind_eq_ok_iff.1 hrest
    rcases hstuck with h₁ | h₂
    · exact absurd h₁ (Block.exists_relocated_iff.1 ⟨new₂, hnew₂⟩)
    · exact absurd h₂ (Block.exists_relocated_iff.1 ⟨new₁, hnew₁⟩)

/-- Blocks of two sizes are refused first, then contents that are stuck on their way. -/
theorem swap_answer (hb₁ : s.canvas.get? id₁ = some block₁)
    (hb₂ : s.canvas.get? id₂ = some block₂) :
    let i := Instruction.swap id₁ id₂
    let stuck := block₁.Stuck block₂.rect ∨ block₂.Stuck block₁.rect
    (¬ s.Overflows i → (s.Accepts i ↔ block₁.size = block₂.size ∧ ¬ stuck)) ∧
    (s.RefusedAs i .sizeMismatch ↔ block₁.size ≠ block₂.size) ∧
    (s.RefusedAs i .invalidBlock ↔ block₁.size = block₂.size ∧ stuck) := by
  intro i stuck
  by_cases hsize : block₁.size = block₂.size
  · by_cases hstuck : stuck
    · obtain ⟨e, ho, hcategory⟩ := outcome_swap_of_stuck hb₁ hb₂ hsize hstuck
      refine ⟨fun _ => ?_, ?_, ?_⟩
      · exact iff_of_false (not_accepts_of_outcome_error ho) fun h => h.2 hstuck
      · exact iff_of_false (not_refusedAs_of_outcome_error ho hcategory (by decide))
          (not_not_intro hsize)
      · exact iff_of_true (refusedAs_of_outcome_error ho hcategory) ⟨hsize, hstuck⟩
    · rw [not_or] at hstuck
      obtain ⟨new₁, hnew₁⟩ := Block.exists_relocated_iff.2 hstuck.2
      obtain ⟨new₂, hnew₂⟩ := Block.exists_relocated_iff.2 hstuck.1
      have ho := (Performs.swap hb₁ hb₂ hsize hnew₁ hnew₂).outcome
      refine ⟨fun hfits => ?_, ?_, ?_⟩
      · exact iff_of_true (accepts_of_outcome_ok ho hfits) ⟨hsize, not_or.2 hstuck⟩
      · exact iff_of_false (not_refusedAs_of_outcome_ok ho) (not_not_intro hsize)
      · exact iff_of_false (not_refusedAs_of_outcome_ok ho) fun h => not_or.2 hstuck h.2
  · have ho : s.outcome i = .error (.sizesDiffer id₁ block₁.size id₂ block₂.size) := by
      simp only [i, outcome, Canvas.block_eq_ok_iff.2 hb₁, Canvas.block_eq_ok_iff.2 hb₂]
      exact if_neg hsize
    have hcategory : (Error.sizesDiffer id₁ block₁.size id₂ block₂.size).category = .sizeMismatch :=
      rfl
    refine ⟨fun _ => ?_, ?_, ?_⟩
    · exact iff_of_false (not_accepts_of_outcome_error ho) fun h => hsize h.1
    · exact iff_of_true (refusedAs_of_outcome_error ho hcategory) hsize
    · exact iff_of_false (not_refusedAs_of_outcome_error ho hcategory (by decide))
        fun h => hsize h.1

/-- Blocks that are not aligned are refused first, then a number that is used up. -/
theorem merge_answer (hb₁ : s.canvas.get? id₁ = some block₁)
    (hb₂ : s.canvas.get? id₂ = some block₂) (hcounter : s.mergeCounter < 18446744073709551616) :
    let i := Instruction.merge id₁ id₂
    let aligned := block₁.rect.Stacked block₂.rect ∨ block₁.rect.SideBySide block₂.rect
    (¬ s.Overflows i → (s.Accepts i ↔ aligned ∧ s.mergeCounter ≠ 18446744073709551615)) ∧
    (s.RefusedAs i .notMergeable ↔ ¬ aligned) ∧
    (s.RefusedAs i .validation ↔ aligned ∧ s.mergeCounter = 18446744073709551615) := by
  intro i aligned
  have hchecks : s.outcome i = if aligned then
      if s.mergeCounter + 1 < 18446744073709551616 then .ok (s.merged id₁ id₂ block₁ block₂)
      else .error .counterExhausted
    else .error (.notAligned id₁ block₁.rect id₂ block₂.rect) := by
    simp only [i, outcome, Canvas.block_eq_ok_iff.2 hb₁, Canvas.block_eq_ok_iff.2 hb₂]
    rfl
  by_cases haligned : aligned
  · rw [if_pos haligned] at hchecks
    by_cases hlast : s.mergeCounter = 18446744073709551615
    · rw [if_neg (by omega)] at hchecks
      have hcategory : Error.counterExhausted.category = .validation := rfl
      refine ⟨fun _ => ?_, ?_, ?_⟩
      · exact iff_of_false (not_accepts_of_outcome_error hchecks) fun h => h.2 hlast
      · exact iff_of_false (not_refusedAs_of_outcome_error hchecks hcategory (by decide))
          (not_not_intro haligned)
      · exact iff_of_true (refusedAs_of_outcome_error hchecks hcategory) ⟨haligned, hlast⟩
    · rw [if_pos (by omega)] at hchecks
      refine ⟨fun hfits => ?_, ?_, ?_⟩
      · exact iff_of_true (accepts_of_outcome_ok hchecks hfits) ⟨haligned, hlast⟩
      · exact iff_of_false (not_refusedAs_of_outcome_ok hchecks) (not_not_intro haligned)
      · exact iff_of_false (not_refusedAs_of_outcome_ok hchecks) fun h => hlast h.2
  · rw [if_neg haligned] at hchecks
    have hcategory :
        (Error.notAligned id₁ block₁.rect id₂ block₂.rect).category = .notMergeable := rfl
    refine ⟨fun _ => ?_, ?_, ?_⟩
    · exact iff_of_false (not_accepts_of_outcome_error hchecks) fun h => haligned h.1
    · exact iff_of_true (refusedAs_of_outcome_error hchecks hcategory) haligned
    · exact iff_of_false (not_refusedAs_of_outcome_error hchecks hcategory (by decide))
        fun h => haligned h.1

end

/-! ## All instructions -/

/-- How every instruction is answered. -/
structure Answers (s : Interpreter) : Prop where
  /-- Blank lines and comments are carried out free of charge. -/
  inert : ∀ i, i.Inert → Edit.apply i s = .ok 0 s
  /-- The first operand that is missing is reported. -/
  missing : ∀ i id, i.operands.find? (· ∉ s.canvas.ids) = some id →
    Edit.apply i s = .error (.refused (.blockNotFound id)) s
  /-- A block can have any colour. -/
  colour : ∀ id c, ¬ s.Overflows (.colour id c) →
    (s.Accepts (.colour id c) ↔ id ∈ s.canvas.ids)
  /-- A point cuts a block if it lies strictly inside. -/
  pointCut : ∀ id p block, s.canvas.get? id = some block →
    (¬ s.Overflows (.pointCut id p) →
      (s.Accepts (.pointCut id p) ↔ p.StrictlyInside block.rect)) ∧
    (s.RefusedAs (.pointCut id p) .invalidGeometry ↔ ¬ p.StrictlyInside block.rect)
  /-- A line cuts a block if it lies strictly between the edges; a line along an edge is refused
  for another cause than a line outside. -/
  lineCut : ∀ axis id position block, s.canvas.get? id = some block →
    let i := Instruction.lineCut axis id position
    (¬ s.Overflows i → (s.Accepts i ↔
      block.rect.low axis < position.val ∧ position.val < block.rect.high axis)) ∧
    (s.RefusedAs i .invalidBlock ↔
      position.val = block.rect.low axis ∨ position.val = block.rect.high axis) ∧
    (s.RefusedAs i .invalidGeometry ↔
      position.val < block.rect.low axis ∨ block.rect.high axis < position.val)
  /-- Blocks of the same size are exchanged, unless a content is stuck on its way. -/
  swap : ∀ id₁ id₂ block₁ block₂, s.canvas.get? id₁ = some block₁ →
    s.canvas.get? id₂ = some block₂ →
    let i := Instruction.swap id₁ id₂
    let stuck := block₁.Stuck block₂.rect ∨ block₂.Stuck block₁.rect
    (¬ s.Overflows i → (s.Accepts i ↔ block₁.size = block₂.size ∧ ¬ stuck)) ∧
    (s.RefusedAs i .sizeMismatch ↔ block₁.size ≠ block₂.size) ∧
    (s.RefusedAs i .invalidBlock ↔ block₁.size = block₂.size ∧ stuck)
  /-- Aligned blocks are joined as long as there is a next number. -/
  merge : ∀ id₁ id₂ block₁ block₂, s.canvas.get? id₁ = some block₁ →
    s.canvas.get? id₂ = some block₂ →
    let i := Instruction.merge id₁ id₂
    let aligned := block₁.rect.Stacked block₂.rect ∨ block₁.rect.SideBySide block₂.rect
    (¬ s.Overflows i → (s.Accepts i ↔ aligned ∧ s.mergeCounter ≠ 18446744073709551615)) ∧
    (s.RefusedAs i .notMergeable ↔ ¬ aligned) ∧
    (s.RefusedAs i .validation ↔ aligned ∧ s.mergeCounter = 18446744073709551615)

/-- All answers are known while the counter is in range. -/
theorem answers_of_mergeCounter_lt (h : s.mergeCounter < 18446744073709551616) : s.Answers where
  inert _ hi := Edit.apply_of_inert hi
  missing _ _ hfind := Edit.apply_of_outcome_error (outcome_of_missing hfind)
  colour _ _ hfits := accepts_colour_iff hfits
  pointCut _ _ _ hb := pointCut_answer hb
  lineCut _ _ _ _ hb := lineCut_answer hb
  swap _ _ _ _ hb₁ hb₂ := swap_answer hb₁ hb₂
  merge _ _ _ _ hb₁ hb₂ := merge_answer hb₁ hb₂ h

/-- The counter begins with a number of 64 bits and never leaves them. -/
theorem mergeCounter_foldl_after_lt (c : Canvas) (table : CostTable) (is : List Instruction) :
    (is.foldl after (.ofCanvas c table)).mergeCounter < 18446744073709551616 := by
  refine names_foldl_after (P := fun _ counter => counter < 18446744073709551616) ?_ ?_ is
  · show c.maxNumericId.getD 0 < 18446744073709551616
    cases hmax : c.maxNumericId with
    | none => decide
    | some n =>
      have hmem := (List.max?_eq_some_iff.1 hmax).1
      obtain ⟨id, -, hid⟩ := List.mem_filterMap.1 hmem
      obtain ⟨-, hlt⟩ := Option.filter_eq_some_iff.1 hid
      exact of_decide_eq_true hlt
  · intro t i o ht hp
    cases hp.renames with
    | same _ _ _ hcounter => exact hcounter ▸ ht
    | cut _ _ hcounter _ => exact hcounter ▸ ht
    | merge _ hlt hcounter _ _ => exact hcounter ▸ hlt

end Interpreter

/-- On a canvas of any kind, whatever its blocks have for leaves, and after any instructions,
every instruction is answered as `Interpreter.Answers` says. -/
theorem answers_exactly (c : Canvas) (table : CostTable) (is : List Instruction) :
    (is.foldl Interpreter.after (.ofCanvas c table)).Answers :=
  Interpreter.answers_of_mergeCounter_lt (Interpreter.mergeCounter_foldl_after_lt c table is)

/-- The leaf of the first block reaches so far beyond it that its corner is stuck on the way to
the second block, and the edge between the two blocks is no place for a cut. -/
theorem answers_exactly_stuck_and_edge : ∃ c,
    (do let c ← Canvas.blank (.ofCoordinates 4 4) .white
        let leaf ← Leaf.ofCorners .origin (.ofCoordinates 4294967295 1) (.solid .white)
        let c ← c.insert "1" (← Block.ofCorners .origin (.ofCoordinates 2 4) [leaf])
        let leaf ← Leaf.ofCorners (.ofCoordinates 2 0) (.ofCoordinates 4 4) (.solid .white)
        c.insert "2" (.simple leaf)) = .ok c ∧
      let s := Interpreter.ofCanvas c .legacy
      s.RefusedAs (.swap "1" "2") .invalidBlock ∧ s.RefusedAs (.verticalCut "1" 2) .invalidBlock ∧
        s.RefusedAs (.verticalCut "1" 3) .invalidGeometry ∧
          Edit.apply (.merge "3" "1") s = .error (.refused (.blockNotFound "3")) s := by
  refine ⟨_, rfl, ?_⟩
  intro s
  have h : s.Answers := answers_exactly s.canvas .legacy []
  refine ⟨?_, ?_, ?_, ?_⟩
  · refine (h.swap "1" "2" _ _ rfl rfl).2.2.2 ⟨rfl, .inl ?_⟩
    exact .corner rfl List.mem_cons_self (.inr rfl) rfl
  · exact (h.lineCut .x "1" 2 _ rfl).2.1.2 (.inr rfl)
  · exact (h.lineCut .x "1" 3 _ rfl).2.2.2 (.inr (by decide))
  · exact h.missing _ _ rfl

end Easel
