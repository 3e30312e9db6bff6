import Easel.Proofs.Provenance
import Mathlib.GroupTheory.Perm.Basic

/-!
# Swaps permute contents

A swap carries the content of each of two blocks to the place of the other: every leaf and
every anchor goes by the vector between the lower-left corners, and colours stay. Contents
that are carried on end up where the sum of the vectors leads, and a content that is back in
its place is what it was (`Block.Carried.trans`, `Block.Carried.eq_of_rect_eq`). So a run of
swaps is told by its net permutation of the names alone.

A place is checked on the way there by adding first. The way back adds up to the place that
the content came from, so it is never refused (`Block.relocated_back`).

Main statement: `swaps_permute_contents`.
-/

namespace Easel

/-! ## Contents that are carried along -/

/-- The fill is carried from `a` to `b`: a colour stays, and an anchor goes by the vector from
`a` to `b`. -/
inductive Fill.Carried (a b : Point) : Fill → Fill → Prop
  | solid (c : Rgba) : Carried a b (.solid c) (.solid c)
  | image {p q : Point} (hx : q.x + a.x = p.x + b.x) (hy : q.y + a.y = p.y + b.y) :
      Carried a b (.image p) (.image q)

/-- The leaf is carried from `a` to `b` with what it shows. -/
structure Leaf.Carried (a b : Point) (leaf new : Leaf) : Prop where
  rect : leaf.rect.Shifted a b new.rect
  fill : leaf.fill.Carried a b new.fill

/-- The block `new` has the content of another block, each leaf carried by the vector from the
lower-left corner of that block to its own. -/
inductive Block.Carried : Block → Block → Prop
  | simple {leaf new : Leaf} (h : leaf.Carried leaf.rect.bottomLeft new.rect.bottomLeft new) :
      Carried (.simple leaf) (.simple new)
  | complex {r q : Rect} {leaves news : List Leaf} (hrect : r.Shifted r.bottomLeft q.bottomLeft q)
      (h : List.Forall₂ (Leaf.Carried r.bottomLeft q.bottomLeft) leaves news) :
      Carried (.complex r leaves) (.complex q news)

/-- Two points that a third one takes to the same place are one. -/
theorem Point.eq_of_add {p q a : Point} (hx : q.x + a.x = p.x + a.x) (hy : q.y + a.y = p.y + a.y) :
    q = p :=
  Point.ext (Nat.add_right_cancel hx) (Nat.add_right_cancel hy)

namespace Rect.Shifted

variable {a b c : Point} {r q u : Rect}

/-- Two shifts in a row are one shift by the sum of their vectors. -/
theorem trans (h : r.Shifted a b q) (h' : q.Shifted b c u) : r.Shifted a c u := by
  obtain ⟨hl, hb, hr, ht⟩ := h
  obtain ⟨hl', hb', hr', ht'⟩ := h'
  constructor <;> omega

/-- A shift can be taken back. -/
theorem symm (h : r.Shifted a b q) : q.Shifted b a r :=
  ⟨h.left.symm, h.bottom.symm, h.right.symm, h.top.symm⟩

/-- A rectangle that is shifted by nothing stays. -/
theorem eq_self (h : r.Shifted a a q) : q = r :=
  Rect.ext (Point.eq_of_add h.left h.bottom) (Point.eq_of_add h.right h.top)

end Rect.Shifted

namespace Fill

variable {a b c : Point} {f g k : Fill}

theorem Carried.refl (a : Point) (f : Fill) : f.Carried a a f := by
  cases f with
  | solid colour => exact .solid colour
  | image p => exact .image rfl rfl

/-- A fill that is carried on comes to where the sum of the vectors leads. -/
theorem Carried.trans (h : f.Carried a b g) (h' : g.Carried b c k) : f.Carried a c k := by
  cases h with
  | solid colour =>
    cases h'
    exact .solid colour
  | image hx hy =>
    obtain _ | ⟨hx', hy'⟩ := h'
    exact .image (by omega) (by omega)

/-- A fill that is carried by nothing stays. -/
theorem Carried.eq_self (h : f.Carried a a g) : g = f := by
  cases h with
  | solid colour => rfl
  | image hx hy => rw [Point.eq_of_add hx hy]

/-- A fill that is rebased is carried along. -/
theorem carried_of_rebased (h : f.rebased a b = .ok g) : f.Carried a b g := by
  cases f with
  | solid colour =>
    cases h
    exact .solid colour
  | image p =>
    obtain ⟨q, hq, rfl⟩ := rebased_image_eq_ok_iff.1 h
    obtain ⟨-, hx, hy⟩ := Point.offset?_eq_some_iff.1 hq
    exact .image hx hy

end Fill

namespace Leaf

variable {a b c : Point} {leaf new next : Leaf}

theorem Carried.refl (a : Point) (leaf : Leaf) : leaf.Carried a a leaf :=
  ⟨⟨rfl, rfl, rfl, rfl⟩, .refl a leaf.fill⟩

/-- A leaf that is carried on comes to where the sum of the vectors leads. -/
theorem Carried.trans (h : leaf.Carried a b new) (h' : new.Carried b c next) :
    leaf.Carried a c next :=
  ⟨h.rect.trans h'.rect, h.fill.trans h'.fill⟩

/-- A leaf that is carried by nothing stays. -/
theorem Carried.eq_self (h : leaf.Carried a a new) : new = leaf := by
  obtain ⟨rect, fill⟩ := leaf
  obtain ⟨newRect, newFill⟩ := new
  have hrect : newRect = rect := h.rect.eq_self
  have hfill : newFill = fill := h.fill.eq_self
  rw [hrect, hfill]

theorem carried_of_moved (h : leaf.Moved a b new) : leaf.Carried a b new :=
  ⟨h.rect, Fill.carried_of_rebased h.fill⟩

/-- Leaves that are carried on come to where the sum of the vectors leads, each of them. -/
theorem forall₂_carried_trans {leaves news nexts : List Leaf}
    (h : List.Forall₂ (Carried a b) leaves news) (h' : List.Forall₂ (Carried b c) news nexts) :
    List.Forall₂ (Carried a c) leaves nexts := by
  induction h generalizing nexts with
  | nil =>
    cases h'
    exact .nil
  | cons hleaf _ ih =>
    obtain _ | ⟨hleaf', hrest⟩ := h'
    exact .cons (hleaf.trans hleaf') (ih hrest)

theorem forall₂_carried_eq_self {leaves news : List Leaf}
    (h : List.Forall₂ (Carried a a) leaves news) : news = leaves := by
  induction h with
  | nil => rfl
  | cons hleaf _ ih => rw [hleaf.eq_self, ih]

end Leaf

namespace Block

variable {block new next : Block} {target : Rect}

theorem Carried.refl (block : Block) : block.Carried block := by
  cases block with
  | simple leaf => exact .simple (.refl _ leaf)
  | complex r leaves =>
    exact .complex ⟨rfl, rfl, rfl, rfl⟩ (List.forall₂_same.2 fun leaf _ => .refl _ leaf)

/-- A content that is carried on is as if it had been carried there at once. -/
theorem Carried.trans (h : block.Carried new) (h' : new.Carried next) : block.Carried next := by
  cases h with
  | simple h =>
    obtain ⟨h'⟩ | _ := h'
    exact .simple (h.trans h')
  | complex hrect h =>
    obtain _ | ⟨hrect', h'⟩ := h'
    exact .complex (hrect.trans hrect') (Leaf.forall₂_carried_trans h h')

/-- A content that is back in its place is what it was. -/
theorem Carried.eq_of_rect_eq (h : block.Carried new) (hrect : new.rect = block.rect) :
    new = block := by
  cases h with
  | @simple leaf new h =>
    have hplace : new.rect = leaf.rect := hrect
    rw [hplace] at h
    rw [h.eq_self]
  | @complex r q leaves news _ h =>
    have hplace : q = r := hrect
    rw [hplace] at h ⊢
    rw [Leaf.forall₂_carried_eq_self h]

/-- A content that is relocated is carried along, leaf by leaf. -/
theorem carried_of_relocated (hsize : block.size = target.size)
    (h : block.relocated target = .ok new) : block.Carried new := by
  have hmoved := moved_of_relocated hsize h
  have hrect : block.rect.Shifted block.rect.bottomLeft target.bottomLeft target :=
    Rect.shifted_of_size_eq hsize
  cases block with
  | simple leaf =>
    obtain ⟨fill, -, hnew⟩ := bind_eq_ok_iff.1 h
    cases hnew
    obtain _ | ⟨hleaf, -⟩ := hmoved
    exact .simple (Leaf.carried_of_moved hleaf)
  | complex r leaves =>
    obtain ⟨news, -, hnew⟩ := bind_eq_ok_iff.1 h
    cases hnew
    exact .complex hrect (hmoved.imp fun _ _ => Leaf.carried_of_moved)

end Block

/-! ## The way back -/

/-- The way back is open: its first sum is the one that was in range on the way there. -/
theorem Point.offset?_back {p q a b : Point} (h : p.offset? a b = some q) :
    q.offset? b a = some p := by
  obtain ⟨⟨hlx, hly⟩, hx, hy⟩ := Point.offset?_eq_some_iff.1 h
  exact Point.offset?_eq_some_iff.2 ⟨⟨by omega, by omega⟩, hx.symm, hy.symm⟩

/-- A fill that has been rebased is rebased back. -/
theorem Fill.rebased_back {f g : Fill} {a b : Point} (h : f.rebased a b = .ok g) :
    g.rebased b a = .ok f := by
  cases f with
  | solid colour =>
    cases h
    rfl
  | image p =>
    obtain ⟨q, hq, rfl⟩ := rebased_image_eq_ok_iff.1 h
    exact rebased_image_eq_ok_iff.2 ⟨p, Point.offset?_back hq, rfl⟩

/-- A leaf that has been moved is moved back. -/
theorem Leaf.offset_back {leaf new : Leaf} {a b : Point} (h : leaf.offset a b = .ok new) :
    new.offset b a = .ok leaf := by
  obtain ⟨hrect, hfill⟩ := offset_eq_ok_iff.1 h
  obtain ⟨hlt, hshift⟩ := Rect.offset_eq_ok_iff.1 hrect
  -- the first sum of the way back is the one that was in range on the way there
  have hlt' : new.rect.topRight.x + a.x < 4294967296 ∧ new.rect.topRight.y + a.y < 4294967296 := by
    rw [hshift.right, hshift.top]
    exact hlt
  exact offset_eq_ok_iff.2 ⟨Rect.offset_eq_ok_iff.2 ⟨hlt', hshift.symm⟩, Fill.rebased_back hfill⟩

/-- A content that has been carried to a place is carried back from it. -/
theorem Block.relocated_back {block new : Block} {target : Rect}
    (h : block.relocated target = .ok new) : new.relocated block.rect = .ok block := by
  cases block with
  | simple leaf =>
    obtain ⟨fill, hfill, hnew⟩ := bind_eq_ok_iff.1 h
    cases hnew
    exact bind_eq_ok_iff.2 ⟨leaf.fill, Fill.rebased_back hfill, rfl⟩
  | complex r leaves =>
    obtain ⟨news, hnews, hnew⟩ := bind_eq_ok_iff.1 h
    cases hnew
    have hback : news.mapM (·.offset target.bottomLeft r.bottomLeft) = .ok leaves :=
      mapM_eq_ok_iff.2 ((mapM_eq_ok_iff.1 hnews).flip.imp fun _ _ => Leaf.offset_back)
    exact bind_eq_ok_iff.2 ⟨leaves, hback, rfl⟩

/-! ## Canvases with permuted contents -/

/-- The canvas `d` is `c` with its contents permuted: all names keep their places in the paint
order and their rectangles, and the block `k` has the content of the block `σ k`. -/
structure Canvas.Permuted (σ : Equiv.Perm String) (c d : Canvas) : Prop where
  size : d.size = c.size
  background : d.background = c.background
  source : d.source = c.source
  ids : d.ids = c.ids
  content : ∀ {k block}, c.get? k = some block → ∃ old new, c.get? (σ k) = some old ∧
    d.get? k = some new ∧ new.rect = block.rect ∧ old.Carried new

namespace Canvas

variable {c d e : Canvas} {σ τ : Equiv.Perm String}

theorem get?_eq_none_iff {k : String} : c.get? k = none ↔ k ∉ c.ids :=
  Registry.get?_eq_none_iff

/-- Of two canvases with the same names, each has the blocks that the other one names. -/
theorem exists_get?_of_ids_eq (h : d.ids = c.ids) {k : String} {block : Block}
    (hk : d.get? k = some block) : ∃ b, c.get? k = some b := by
  refine Option.ne_none_iff_exists'.1 fun hnone => ?_
  rw [get?_eq_none_iff, ← h, ← get?_eq_none_iff, hk] at hnone
  cases hnone

/-- Nothing is permuted where nothing is done. -/
theorem Permuted.refl (c : Canvas) : c.Permuted 1 c where
  size := rfl
  background := rfl
  source := rfl
  ids := rfl
  content := fun {_ block} hk => ⟨block, block, hk, hk, rfl, .refl block⟩

/-- Of two permutations in a row, the later one says where to look first. -/
theorem Permuted.trans (h : c.Permuted σ d) (h' : d.Permuted τ e) : c.Permuted (σ * τ) e where
  size := h'.size.trans h.size
  background := h'.background.trans h.background
  source := h'.source.trans h.source
  ids := h'.ids.trans h.ids
  content := by
    intro k block hk
    obtain ⟨-, new, -, hnew, hrect, -⟩ := h.content hk
    -- what `k` has in the end stood under `τ k` in between, and under `σ (τ k)` at first
    obtain ⟨old, last, hold, hlast, hrect', hcarried'⟩ := h'.content hnew
    obtain ⟨b, hb⟩ := exists_get?_of_ids_eq h.ids hold
    obtain ⟨first, old', hfirst, hold', -, hcarried⟩ := h.content hb
    obtain rfl : old = old' := Option.some.inj (hold.symm.trans hold')
    exact ⟨first, last, hfirst, hlast, hrect'.trans hrect, hcarried.trans hcarried'⟩

theorem eq_of_rearranged (h : c.Rearranged c.blocks d) : d = c := by
  cases c
  cases d
  obtain ⟨rfl, rfl, rfl, rfl⟩ := h
  rfl

/-- A canvas of which all contents are back in their places is what it was. -/
theorem Permuted.eq_self (h : c.Permuted 1 d) : d = c := by
  have hget : ∀ k, d.get? k = c.get? k := by
    intro k
    cases hk : c.get? k with
    | none =>
      rwa [get?_eq_none_iff, h.ids, ← get?_eq_none_iff]
    | some block =>
      obtain ⟨old, new, hold, hnew, hrect, hcarried⟩ := h.content hk
      obtain rfl : block = old := Option.some.inj (hk.symm.trans hold)
      rw [hnew, hcarried.eq_of_rect_eq hrect]
  exact eq_of_rearranged ⟨h.size, h.background, h.source, Registry.ext_get? h.ids hget⟩

end Canvas

/-! ## Swaps -/

namespace Interpreter

variable {s t : Interpreter} {id₁ id₂ : String} {block₁ block₂ new₁ new₂ : Block}

/-- The blocks under two names are of the same size, and `new₁` and `new₂` are their contents
in each other's place. -/
structure Swaps (s : Interpreter) (id₁ id₂ : String) (block₁ block₂ new₁ new₂ : Block) :
    Prop where
  left : s.canvas.get? id₁ = some block₁
  right : s.canvas.get? id₂ = some block₂
  size : block₁.size = block₂.size
  newLeft : block₂.relocated block₁.rect = .ok new₁
  newRight : block₁.relocated block₂.rect = .ok new₂

/-- A swap is carried out if the blocks are there, of one size and can be put in each other's
place. -/
theorem performs_swap_iff {o : Outcome} : s.Performs (.swap id₁ id₂) o ↔
    ∃ block₁ block₂ new₁ new₂, s.Swaps id₁ id₂ block₁ block₂ new₁ new₂ ∧
      o = s.swapped id₁ id₂ block₁ new₁ new₂ := by
  constructor
  · intro h
    cases h with
    | inert hi => cases hi
    | cut hi => cases hi
    | swap hb₁ hb₂ hsize hnew₁ hnew₂ => exact ⟨_, _, _, _, ⟨hb₁, hb₂, hsize, hnew₁, hnew₂⟩, rfl⟩
  · intro h
    obtain ⟨_, _, _, _, h, rfl⟩ := h
    exact .swap h.left h.right h.size h.newLeft h.newRight

namespace Swaps

/-- It makes no difference which block is named first. -/
theorem symm (h : s.Swaps id₁ id₂ block₁ block₂ new₁ new₂) :
    s.Swaps id₂ id₁ block₂ block₁ new₂ new₁ :=
  ⟨h.right, h.left, h.size.symm, h.newRight, h.newLeft⟩

/-- The second name has the content that was put down last. -/
theorem get?_right {d : Canvas}
    (hd : s.canvas.Rearranged (s.swapped id₁ id₂ block₁ new₁ new₂).blocks d) :
    d.get? id₂ = some new₂ := by
  rw [Canvas.get?, hd.blocks, swapped, Registry.get?_insert, if_pos rfl]

/-- A block that is swapped with itself has two equal contents. -/
theorem get?_left {d : Canvas} (h : s.Swaps id₁ id₂ block₁ block₂ new₁ new₂)
    (hd : s.canvas.Rearranged (s.swapped id₁ id₂ block₁ new₁ new₂).blocks d) :
    d.get? id₁ = some new₁ := by
  rw [Canvas.get?, hd.blocks, swapped, Registry.get?_insert]
  split
  next hid =>
    subst hid
    obtain rfl : block₁ = block₂ := Option.some.inj (h.left.symm.trans h.right)
    exact congrArg some (Except.ok.inj (h.newRight.symm.trans h.newLeft))
  next => rw [Registry.get?_insert, if_pos rfl]

/-- No third block is touched. -/
theorem get?_other {d : Canvas} {k : String}
    (hd : s.canvas.Rearranged (s.swapped id₁ id₂ block₁ new₁ new₂).blocks d) (h₁ : k ≠ id₁)
    (h₂ : k ≠ id₂) : d.get? k = s.canvas.get? k := by
  rw [Canvas.get?, hd.blocks, swapped, Registry.get?_insert, if_neg h₂, Registry.get?_insert,
    if_neg h₁]
  rfl

/-- A swap keeps the names and their order. -/
theorem ids_eq {d : Canvas} (h : s.Swaps id₁ id₂ block₁ block₂ new₁ new₂)
    (hd : s.canvas.Rearranged (s.swapped id₁ id₂ block₁ new₁ new₂).blocks d) :
    d.ids = s.canvas.ids := by
  rw [Canvas.ids, hd.blocks]
  exact names_swapped h.left h.right

/-- A swap exchanges two contents. -/
theorem permuted {d : Canvas} (h : s.Swaps id₁ id₂ block₁ block₂ new₁ new₂)
    (hd : s.canvas.Rearranged (s.swapped id₁ id₂ block₁ new₁ new₂).blocks d) :
    s.canvas.Permuted (Equiv.swap id₁ id₂) d where
  size := hd.size
  background := hd.background
  source := hd.source
  ids := h.ids_eq hd
  content := by
    intro k block hk
    by_cases h₁ : k = id₁
    · subst h₁
      obtain rfl : block = block₁ := Option.some.inj (hk.symm.trans h.left)
      rw [Equiv.swap_apply_left]
      exact ⟨block₂, new₁, h.right, h.get?_left hd, Block.rect_of_relocated h.newLeft,
        Block.carried_of_relocated h.size.symm h.newLeft⟩
    by_cases h₂ : k = id₂
    · subst h₂
      obtain rfl : block = block₂ := Option.some.inj (hk.symm.trans h.right)
      rw [Equiv.swap_apply_right]
      exact ⟨block₁, new₂, h.left, get?_right hd, Block.rect_of_relocated h.newRight,
        Block.carried_of_relocated h.size h.newRight⟩
    · rw [Equiv.swap_apply_of_ne_of_ne h₁ h₂]
      exact ⟨block, block, hk, (get?_other hd h₁ h₂).trans hk, rfl, .refl block⟩

/-- After a swap, the old blocks are the contents of the new ones in each other's place. -/
theorem back (h : s.Swaps id₁ id₂ block₁ block₂ new₁ new₂)
    (hd : s.canvas.Rearranged (s.swapped id₁ id₂ block₁ new₁ new₂).blocks t.canvas) :
    t.Swaps id₁ id₂ new₁ new₂ block₁ block₂ where
  left := h.get?_left hd
  right := get?_right hd
  size := by
    rw [Block.size, Block.size, Block.rect_of_relocated h.newLeft,
      Block.rect_of_relocated h.newRight]
    exact h.size
  newLeft := by
    rw [Block.rect_of_relocated h.newLeft]
    exact Block.relocated_back h.newRight
  newRight := by
    rw [Block.rect_of_relocated h.newRight]
    exact Block.relocated_back h.newLeft

end Swaps

/-- A swap that works has exchanged two contents, for the price of the first block. -/
theorem swaps_of_apply {cost : Nat} (h : Edit.apply (.swap id₁ id₂) s = .ok cost t) :
    ∃ block₁ block₂ new₁ new₂, s.Swaps id₁ id₂ block₁ block₂ new₁ new₂ ∧
      s.canvas.Rearranged (s.swapped id₁ id₂ block₁ new₁ new₂).blocks t.canvas ∧
        cost = s.priceOf .swap block₁.area ∧ t.table = s.table := by
  cases ho : s.outcome (.swap id₁ id₂) with
  | error e =>
    rw [Edit.apply_of_outcome_error ho] at h
    cases h
  | ok o =>
    obtain ⟨block₁, block₂, new₁, new₂, hswaps, rfl⟩ := performs_swap_iff.1 (performs_of_outcome ho)
    obtain ⟨d, hd, hok | ⟨-, hover⟩⟩ := Edit.apply_of_outcome_ok ho
    · rw [hok] at h
      cases h
      exact ⟨block₁, block₂, new₁, new₂, hswaps, hd, rfl, rfl⟩
    · rw [hover] at h
      cases h

/-- A swap that works permutes two contents. -/
theorem permuted_of_apply {cost : Nat} (h : Edit.apply (.swap id₁ id₂) s = .ok cost t) :
    s.canvas.Permuted (Equiv.swap id₁ id₂) t.canvas := by
  obtain ⟨_, _, _, _, hswaps, hd, -⟩ := swaps_of_apply h
  exact hswaps.permuted hd

/-- Contents that can be in each other's place are swapped, if the price still fits into the sum. -/
theorem Swaps.exists_apply (h : s.Swaps id₁ id₂ block₁ block₂ new₁ new₂) {cost : Nat}
    (hcost : s.priceOf .swap block₁.area = cost)
    (hfits : s.totalCost + cost < 18446744073709551616) :
    ∃ t, Edit.apply (.swap id₁ id₂) s = .ok cost t := by
  have houtcome := (performs_swap_iff.2 ⟨_, _, _, _, h, rfl⟩).outcome
  obtain ⟨d, -, hok | ⟨hlarge, -⟩⟩ := Edit.apply_of_outcome_ok houtcome
  · subst hcost
    exact ⟨_, hok⟩
  · rw [show (s.swapped id₁ id₂ block₁ new₁ new₂).cost = cost from hcost] at hlarge
    omega

/-- The same two names can be swapped again, in either order and at the same price, and then
everything is where it was. -/
theorem exists_apply_swap_back {cost : Nat} (h : Edit.apply (.swap id₁ id₂) s = .ok cost t)
    (hfits : t.totalCost + cost < 18446744073709551616) {i : Instruction}
    (hi : i = .swap id₁ id₂ ∨ i = .swap id₂ id₁) :
    ∃ u, Edit.apply i t = .ok cost u ∧ u.canvas = s.canvas := by
  obtain ⟨block₁, block₂, new₁, new₂, hswaps, hd, rfl, htable⟩ := swaps_of_apply h
  have hback := hswaps.back hd
  have hprice : t.priceOf .swap new₁.area = s.priceOf .swap block₁.area := by
    unfold priceOf Block.area Canvas.area
    rw [htable, hd.size, Block.rect_of_relocated hswaps.newLeft]
  have harea : new₂.area = new₁.area := congrArg Point.area hback.size.symm
  have hpermuted := permuted_of_apply h
  rcases hi with rfl | rfl
  · obtain ⟨u, hu⟩ := hback.exists_apply hprice hfits
    have hround := hpermuted.trans (permuted_of_apply hu)
    rw [Equiv.swap_mul_self] at hround
    exact ⟨u, hu, hround.eq_self⟩
  · obtain ⟨u, hu⟩ := hback.symm.exists_apply (harea ▸ hprice) hfits
    have hround := hpermuted.trans (permuted_of_apply hu)
    rw [Equiv.swap_comm id₂, Equiv.swap_mul_self] at hround
    exact ⟨u, hu, hround.eq_self⟩

/-! ## Runs of swaps -/

/-- Where the content under a name comes from, after swaps one after another. -/
def netPermutation (ps : List (String × String)) : Equiv.Perm String :=
  (ps.map fun p => Equiv.swap p.1 p.2).prod

/-- Swaps one after another permute the contents by their product. -/
theorem CarriesOut.permuted {ps : List (String × String)} {sum : Nat}
    (h : s.CarriesOut (ps.map fun p => .swap p.1 p.2) sum t) :
    s.canvas.Permuted (netPermutation ps) t.canvas := by
  induction ps generalizing s sum with
  | nil =>
    cases h
    exact .refl _
  | cons p ps ih =>
    obtain _ | ⟨hfirst, hrest⟩ := h
    unfold netPermutation
    rw [List.map_cons, List.prod_cons]
    exact (permuted_of_apply hfirst).trans (ih hrest)

end Interpreter

/-- From any state, whatever leaves its blocks have: swaps that are carried out one after another
keep the names, their paint order and their rectangles, and the block `k` has the content of the
block that their net permutation gives for `k`, carried to its new place by the vector between
the lower-left corners. If the net permutation is the identity, the canvas is what it was. And
after a swap the same two names can be swapped again, in either order, if the price still fits
into the sum of all prices; this restores the canvas. -/
theorem swaps_permute_contents (s : Interpreter) :
    (∀ ps sum t, s.CarriesOut (ps.map fun p => .swap p.1 p.2) sum t →
      s.canvas.Permuted (Interpreter.netPermutation ps) t.canvas ∧
        (Interpreter.netPermutation ps = 1 → t.canvas = s.canvas)) ∧
    ∀ id₁ id₂ cost t, Edit.apply (.swap id₁ id₂) s = .ok cost t →
      t.totalCost + cost < 18446744073709551616 →
        ∀ i, i = .swap id₁ id₂ ∨ i = .swap id₂ id₁ →
          ∃ u, Edit.apply i t = .ok cost u ∧ u.canvas = s.canvas := by
  constructor
  · intro ps sum t h
    refine ⟨h.permuted, fun hidentity => ?_⟩
    have hpermuted := h.permuted
    rw [hidentity] at hpermuted
    exact hpermuted.eq_self
  · intro id₁ id₂ cost t h hfits i hi
    exact Interpreter.exists_apply_swap_back h hfits hi

/-- A window of the source image goes round with two cells that have been joined and a column of
one colour, and the last swap is taken back in the other order. -/
theorem swaps_permute_contents_window_and_joined :
    let layout : Layout :=
      { size := .ofCoordinates 3 2
        presets :=
          [{ id := "a", bottomLeft := .origin, topRight := .ofCoordinates 1 2,
             anchor := some .origin },
           { id := "b", bottomLeft := .ofCoordinates 1 0, topRight := .ofCoordinates 2 1,
             colour := some .white },
           { id := "c", bottomLeft := .ofCoordinates 1 1, topRight := .ofCoordinates 2 2,
             colour := some .transparent },
           { id := "d", bottomLeft := .ofCoordinates 2 0, topRight := .ofCoordinates 3 2,
             colour := some .white }]
        sourcePixels := some (Array.replicate 6 .white) }
    ∃ c s sum t u, Canvas.ofLayout layout = .ok c ∧
      s = (Interpreter.ofCanvas c .legacy).after (.merge "b" "c") ∧
      s.CarriesOut [.swap "a" "1", .swap "1" "d"] sum t ∧
      s.canvas.Permuted (Interpreter.netPermutation [("a", "1"), ("1", "d")]) t.canvas ∧
      u = s.after (.swap "a" "1") ∧
        ∃ cost v, Edit.apply (.swap "d" "1") t = .ok cost v ∧ v.canvas = u.canvas := by
  intro layout
  obtain ⟨c, hc⟩ : ∃ c, Canvas.ofLayout layout = .ok c := ⟨_, rfl⟩
  obtain ⟨s, hs⟩ : ∃ s, s = (Interpreter.ofCanvas c .legacy).after (.merge "b" "c") := ⟨_, rfl⟩
  have hfirst : s.Accepts (.swap "a" "1") := by
    cases hc
    rw [hs]
    decide +kernel
  obtain ⟨cost₂, t, ht, htotal⟩ : ∃ cost t,
      Edit.apply (.swap "1" "d") (s.after (.swap "a" "1")) = .ok cost t ∧
        2 * t.totalCost < 18446744073709551616 := by
    cases hc
    rw [hs]
    refine Interpreter.exists_apply_of_accepts ?_
    decide +kernel
  obtain ⟨cost₁, hfirst⟩ := Interpreter.accepts_iff.1 hfirst
  have hrun : s.CarriesOut [.swap "a" "1", .swap "1" "d"] (cost₁ + (cost₂ + 0)) t :=
    .cons hfirst (.cons ht (.nil t))
  have hfits : t.totalCost + cost₂ < 18446744073709551616 := by
    have hpaid := hrun.totalCost
    omega
  obtain ⟨v, hv, hback⟩ := (swaps_permute_contents _).2 "1" "d" cost₂ t ht hfits _ (.inr rfl)
  exact ⟨c, s, _, t, _, hc, hs, hrun,
    ((swaps_permute_contents s).1 [("a", "1"), ("1", "d")] _ t hrun).1, rfl, cost₂, v, hv, hback⟩

end Easel
