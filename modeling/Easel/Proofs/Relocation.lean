import Easel.Proofs.Pieces
import Mathlib.Data.List.Forall2

/-!
# Contents that move

A swap moves the leaves of a block by one vector, each with what it shows.
`Leaf.Moved` is that move for one leaf; the leaves of a relocated block are the
moved leaves in the same order (`moved_of_relocated`), so a cell shows what the
cell at its old place showed, rebased (`fillsAt_of_moved`).

A move is refused only where a corner or an anchor leaves its range on the way, and
`Block.Stuck` says which of them counts (`exists_relocated_iff`). Leaves of one colour
that lie in their block are not stuck wherever the sums of the upper-right corner of
the block stay below `2 ^ 32` (`not_stuck`).
-/

namespace Easel

/-- Steps over a list work if each one does, and give the list of their results. -/
theorem mapM_eq_ok_iff {ε α β : Type} {f : α → Except ε β} {as : List α} {bs : List β} :
    as.mapM f = .ok bs ↔ List.Forall₂ (fun a b => f a = .ok b) as bs := by
  induction as generalizing bs with
  | nil =>
    rw [List.mapM_nil, List.forall₂_nil_left_iff]
    simp only [pure, Except.pure, Except.ok.injEq, eq_comm]
  | cons a as ih =>
    rw [List.mapM_cons, List.forall₂_cons_left_iff]
    simp only [bind_eq_ok_iff, ih, pure, Except.pure, Except.ok.injEq]
    constructor
    · intro h
      obtain ⟨b, hb, bs', hbs, rfl⟩ := h
      exact ⟨b, bs', hb, hbs, rfl⟩
    · intro h
      obtain ⟨b, bs', hb, hbs, rfl⟩ := h
      exact ⟨b, hb, bs', hbs, rfl⟩

theorem exists_mapM {ε α β : Type} {f : α → Except ε β} {as : List α}
    (h : ∀ a ∈ as, ∃ b, f a = .ok b) : ∃ bs, as.mapM f = .ok bs := by
  induction as with
  | nil => exact ⟨[], rfl⟩
  | cons a as ih =>
    obtain ⟨b, hb⟩ := h a List.mem_cons_self
    obtain ⟨bs, hbs⟩ := ih fun a' ha => h a' (List.mem_cons_of_mem _ ha)
    exact ⟨b :: bs, mapM_eq_ok_iff.2 (.cons hb (mapM_eq_ok_iff.1 hbs))⟩

theorem exists_of_mapM {ε α β : Type} {f : α → Except ε β} {as : List α} {bs : List β}
    (h : as.mapM f = .ok bs) {a : α} (ha : a ∈ as) : ∃ b, f a = .ok b := by
  have hall := mapM_eq_ok_iff.1 h
  clear h
  induction hall with
  | nil => cases ha
  | cons hab _ ih =>
    rcases List.mem_cons.1 ha with rfl | ha
    · exact ⟨_, hab⟩
    · exact ih ha

/-- Steps over a list fail with the first one that does. -/
theorem mapM_eq_error_iff {ε α β : Type} {f : α → Except ε β} {as : List α} {e : ε} :
    as.mapM f = .error e ↔ ∃ before a after, as = before ++ a :: after ∧
      (∀ a ∈ before, ∃ b, f a = .ok b) ∧ f a = .error e := by
  constructor
  · intro h
    induction as with
    | nil => cases h
    | cons a as ih =>
      rw [List.mapM_cons, bind_eq_error_iff] at h
      rcases h with ha | ⟨b, hb, hrest⟩
      · exact ⟨[], a, as, rfl, nofun, ha⟩
      · rcases bind_eq_error_iff.1 hrest with has | ⟨bs, -, hpure⟩
        · obtain ⟨before, a', after, rfl, hbefore, hfail⟩ := ih has
          exact ⟨a :: before, a', after, rfl, List.forall_mem_cons.2 ⟨⟨b, hb⟩, hbefore⟩, hfail⟩
        · cases hpure
  · intro h
    obtain ⟨before, a, after, rfl, hbefore, hfail⟩ := h
    obtain ⟨bs, hbs⟩ := exists_mapM hbefore
    rw [List.mapM_append, bind_eq_error_iff]
    refine .inr ⟨bs, hbs, bind_eq_error_iff.2 (.inl ?_)⟩
    rw [List.mapM_cons, bind_eq_error_iff]
    exact .inl hfail

/-- Where steps over a list fail, one of them does. -/
theorem exists_of_mapM_eq_error {ε α β : Type} {f : α → Except ε β} {as : List α} {e : ε}
    (h : as.mapM f = .error e) : ∃ a ∈ as, f a = .error e := by
  obtain ⟨before, a, after, rfl, -, hfail⟩ := mapM_eq_error_iff.1 h
  exact ⟨a, List.mem_append_right _ List.mem_cons_self, hfail⟩

theorem exists_of_forall₂ {α β : Type} {R : α → β → Prop} {as : List α} {bs : List β}
    (h : List.Forall₂ R as bs) {b : β} (hb : b ∈ bs) : ∃ a ∈ as, R a b := by
  induction h with
  | nil => cases hb
  | cons hab _ ih =>
    rcases List.mem_cons.1 hb with rfl | hb
    · exact ⟨_, List.mem_cons_self, hab⟩
    · obtain ⟨a, ha, hab⟩ := ih hb
      exact ⟨a, List.mem_cons_of_mem _ ha, hab⟩

/-! ## Leaves -/

/-- An image is moved by moving its anchor. -/
theorem Fill.rebased_image_eq_ok_iff {anchor a b : Point} {fill : Fill} :
    (image anchor).rebased a b = .ok fill ↔
      ∃ anchor', anchor.offset? a b = some anchor' ∧ fill = .image anchor' := by
  simp only [rebased]
  cases anchor.offset? a b <;> simp [eq_comm]

theorem Fill.exists_rebased_iff {f : Fill} {a b : Point} :
    (∃ g, f.rebased a b = .ok g) ↔ ∀ anchor, f = .image anchor → anchor.offset? a b ≠ none := by
  cases f with
  | solid colour =>
    refine iff_of_true ⟨_, rfl⟩ fun anchor h => ?_
    cases h
  | image anchor =>
    simp only [rebased_image_eq_ok_iff, Fill.image.injEq, forall_eq', Option.ne_none_iff_exists']
    constructor
    · intro h
      obtain ⟨_, q, hq, -⟩ := h
      exact ⟨q, hq⟩
    · intro h
      obtain ⟨q, hq⟩ := h
      exact ⟨_, q, hq, rfl⟩

namespace Leaf

/-- The leaf `moved` is `leaf` moved by the vector from `a` to `b`. -/
structure Moved (a b : Point) (leaf moved : Leaf) : Prop where
  rect : leaf.rect.Shifted a b moved.rect
  fill : leaf.fill.rebased a b = .ok moved.fill

theorem offset_eq_ok_iff {leaf moved : Leaf} {a b : Point} :
    leaf.offset a b = .ok moved ↔
      leaf.rect.offset a b = .ok moved.rect ∧ leaf.fill.rebased a b = .ok moved.fill := by
  simp only [offset, bind_eq_ok_iff, pure, Except.pure, Except.ok.injEq]
  constructor
  · intro h
    obtain ⟨rect, hrect, fill, hfill, rfl⟩ := h
    exact ⟨hrect, hfill⟩
  · intro h
    obtain ⟨hrect, hfill⟩ := h
    exact ⟨moved.rect, hrect, moved.fill, hfill, rfl⟩

theorem exists_offset_iff {leaf : Leaf} {a b : Point} :
    (∃ moved, leaf.offset a b = .ok moved) ↔
      (∃ q, leaf.rect.offset a b = .ok q) ∧ ∃ g, leaf.fill.rebased a b = .ok g := by
  simp only [offset_eq_ok_iff]
  constructor
  · intro h
    obtain ⟨moved, hrect, hfill⟩ := h
    exact ⟨⟨_, hrect⟩, _, hfill⟩
  · intro h
    obtain ⟨⟨q, hrect⟩, g, hfill⟩ := h
    exact ⟨⟨q, g⟩, hrect, hfill⟩

theorem moved_of_offset {leaf moved : Leaf} {a b : Point} (h : leaf.offset a b = .ok moved) :
    leaf.Moved a b moved := by
  obtain ⟨hrect, hfill⟩ := offset_eq_ok_iff.1 h
  exact ⟨(Rect.offset_eq_ok_iff.1 hrect).2, hfill⟩

end Leaf

/-- A cell shows what the cell at its old place showed, rebased. -/
theorem fillsAt_of_moved {leaves moved : List Leaf} {a b : Point}
    (h : List.Forall₂ (Leaf.Moved a b) leaves moved) {x y x' y' : Nat}
    (hx : x + a.x = x' + b.x) (hy : y + a.y = y' + b.y) :
    List.Forall₂ (fun f g => f.rebased a b = .ok g) (fillsAt leaves x' y') (fillsAt moved x y) := by
  induction h with
  | nil => exact .nil
  | @cons leaf new leaves moved hm _ ih =>
    rw [fillsAt_cons, fillsAt_cons]
    have hcov := hm.rect.covers hx hy
    by_cases hc : leaf.rect.Covers x' y'
    · rw [if_pos hc, if_pos (hcov.2 hc)]
      exact .cons hm.fill ih
    · rw [if_neg hc, if_neg (fun hn => hc (hcov.1 hn))]
      exact ih

/-! ## Blocks -/

namespace Block

theorem rect_of_relocated {block new : Block} {target : Rect}
    (h : block.relocated target = .ok new) : new.rect = target := by
  cases block with
  | simple leaf =>
    obtain ⟨fill, -, hnew⟩ := bind_eq_ok_iff.1 h
    cases hnew
    rfl
  | complex r children =>
    obtain ⟨moved, -, hnew⟩ := bind_eq_ok_iff.1 h
    cases hnew
    rfl

/-- The leaves of a relocated block are the moved leaves. -/
theorem moved_of_relocated {block new : Block} {target : Rect} (hsize : block.size = target.size)
    (h : block.relocated target = .ok new) :
    List.Forall₂ (Leaf.Moved block.rect.bottomLeft target.bottomLeft) block.leaves new.leaves := by
  cases block with
  | simple leaf =>
    obtain ⟨fill, hfill, hnew⟩ := bind_eq_ok_iff.1 h
    cases hnew
    exact .cons ⟨Rect.shifted_of_size_eq hsize, hfill⟩ .nil
  | complex r children =>
    obtain ⟨moved, hmoved, hnew⟩ := bind_eq_ok_iff.1 h
    cases hnew
    exact (mapM_eq_ok_iff.1 hmoved).imp fun _ _ => Leaf.moved_of_offset

/-- The content of the block cannot be moved to the place of `target`: an anchor leaves its
range on the way there or, in a block of several leaves, a corner of a leaf does. -/
inductive Stuck (block : Block) (target : Rect) : Prop
  | anchor {leaf : Leaf} {p : Point} (hl : leaf ∈ block.leaves) (hfill : leaf.fill = .image p)
      (h : p.offset? block.rect.bottomLeft target.bottomLeft = none)
  | corner {rect : Rect} {leaves : List Leaf} {leaf : Leaf} {p : Point}
      (hblock : block = .complex rect leaves) (hl : leaf ∈ leaves)
      (hp : p = leaf.rect.bottomLeft ∨ p = leaf.rect.topRight)
      (h : p.offset? rect.bottomLeft target.bottomLeft = none)

/-- A leaf is relocated if its fill is rebased. -/
theorem exists_relocated_simple_iff {leaf : Leaf} {target : Rect} :
    (∃ new, (simple leaf).relocated target = .ok new) ↔
      ∃ g, leaf.fill.rebased leaf.rect.bottomLeft target.bottomLeft = .ok g := by
  simp only [relocated, bind_eq_ok_iff]
  constructor
  · intro h
    obtain ⟨_, g, hg, -⟩ := h
    exact ⟨g, hg⟩
  · intro h
    obtain ⟨g, hg⟩ := h
    exact ⟨_, g, hg, rfl⟩

/-- Several leaves are relocated if each of them is moved. -/
theorem exists_relocated_complex_iff {rect target : Rect} {leaves : List Leaf} :
    (∃ new, (complex rect leaves).relocated target = .ok new) ↔
      ∀ leaf ∈ leaves, ∃ moved, leaf.offset rect.bottomLeft target.bottomLeft = .ok moved := by
  simp only [relocated, bind_eq_ok_iff]
  constructor
  · intro h leaf hl
    obtain ⟨_, moved, hmoved, -⟩ := h
    exact exists_of_mapM hmoved hl
  · intro h
    obtain ⟨moved, hmoved⟩ := exists_mapM h
    exact ⟨_, moved, hmoved, rfl⟩

/-- A content that is not stuck is moved. -/
theorem exists_relocated_iff {block : Block} {target : Rect} :
    (∃ new, block.relocated target = .ok new) ↔ ¬ block.Stuck target := by
  cases block with
  | simple leaf =>
    rw [exists_relocated_simple_iff, Fill.exists_rebased_iff]
    constructor
    · intro h hstuck
      cases hstuck with
      | anchor hl hanchor hnone =>
        rw [List.mem_singleton.1 hl] at hanchor
        exact h _ hanchor hnone
      | corner hblock => cases hblock
    · intro h p hp hnone
      exact h (.anchor (List.mem_singleton_self _) hp hnone)
  | complex rect leaves =>
    simp only [exists_relocated_complex_iff, Leaf.exists_offset_iff, Rect.exists_offset_iff,
      Fill.exists_rebased_iff]
    constructor
    · intro h hstuck
      cases hstuck with
      | anchor hl hfill hnone => exact (h _ hl).2 _ hfill hnone
      | corner hblock hl hp hnone =>
        cases hblock
        rcases hp with rfl | rfl
        · exact (h _ hl).1.1 hnone
        · exact (h _ hl).1.2 hnone
    · intro h leaf hl
      exact ⟨⟨fun hnone => h (.corner rfl hl (.inl rfl) hnone),
        fun hnone => h (.corner rfl hl (.inr rfl) hnone)⟩,
        fun p hp hnone => h (.anchor hl hp hnone)⟩

/-- Leaves of one colour inside their block are not stuck, unless the corner of the block is. -/
theorem not_stuck {block : Block} {target : Rect}
    (hin : ∀ leaf ∈ block.leaves, block.rect.Contains leaf.rect)
    (hsolid : ∀ leaf ∈ block.leaves, ∃ c, leaf.fill = .solid c)
    (h : ¬ block.rect.Overreaches target) : ¬ block.Stuck target := by
  intro hstuck
  cases hstuck with
  | anchor hl hfill hnone =>
    obtain ⟨c, hc⟩ := hsolid _ hl
    rw [hc] at hfill
    cases hfill
  | @corner rect leaves leaf p hblock hl hp hnone =>
    subst hblock
    obtain ⟨hlow, hhigh⟩ := hin leaf hl
    rcases hp with rfl | rfl
    · exact Rect.offset?_ne_none hlow h hnone
    · exact Rect.offset?_ne_none hhigh h hnone

end Block

end Easel
