import Easel.Proofs.Conservation
import Easel.Proofs.Swaps

/-!
# What a cell shows after a swap

A cell shows a colour, or a place of the source image (`Sight`), and it is the last leaf over it
that decides (`Canvas.sightAt?`). Cells and places both count upwards here. A drawn frame counts
its rows from the top, and so does the source image; `pixel?_eq_of_draw` is the one place where
both are turned round.

A swap carries contents by one vector. A leaf and its anchor go by the same vector, so a cell
shows what the cell that it goes back to showed: the same colour, or the place moved by the vector
(`Leaf.Carried.sightAt`). With blocks that share no cells nothing lies over a content at its new
place that did not come with it (`Canvas.Permuted.sightAt?_carried`).

Main statement: `swap_carries_sights`. An image that begins with every leaf at its own place stays
as it is when it is swapped, since both moves cancel.
-/

namespace Easel

/-! ## Sights -/

/-- What is to be seen in a cell. -/
inductive Sight where
  /-- A colour of its own. -/
  | colour (c : Rgba)
  /-- A place of the source image, counted upwards from the bottom. -/
  | place (x y : Nat)
deriving DecidableEq

namespace Sight

/-- The colour that is seen. The source image counts its rows from the top. -/
def colour? (source : Option Picture) : Sight → Option Rgba
  | .colour c => some c
  | .place x y => source.bind fun picture => picture.pixel? x (picture.height - 1 - y)

/-- What is seen is there: a place lies in the source image. -/
def Visible (source : Option Picture) : Sight → Prop
  | .colour _ => True
  | .place x y => ∃ picture, source = some picture ∧ x < picture.width ∧ y < picture.height

theorem Visible.exists_colour? {source : Option Picture} {sight : Sight}
    (h : sight.Visible source) : ∃ colour, sight.colour? source = some colour := by
  cases sight with
  | colour c => exact ⟨c, rfl⟩
  | place x y =>
    obtain ⟨picture, rfl, hx, hy⟩ := h
    exact Picture.exists_pixel? hx (by omega)

/-- The sight is carried from `a` to `b`: a colour stays, and a place goes by the vector from `a`
to `b`. -/
inductive Carried (a b : Point) : Sight → Sight → Prop
  | colour (c : Rgba) : Carried a b (.colour c) (.colour c)
  | place {px py qx qy : Nat} (hx : qx + a.x = px + b.x) (hy : qy + a.y = py + b.y) :
      Carried a b (.place px py) (.place qx qy)

end Sight

/-- What a leaf shows in a cell. -/
def Leaf.sightAt (leaf : Leaf) (x y : Nat) : Sight :=
  match leaf.fill with
  | .solid colour => .colour colour
  | .image anchor =>
    .place (anchor.x + (x - leaf.rect.bottomLeft.x)) (anchor.y + (y - leaf.rect.bottomLeft.y))

/-- What a canvas shows in a cell: what the last leaf over it shows. -/
def Canvas.sightAt? (c : Canvas) (x y : Nat) : Option Sight :=
  (seenAt (·.sightAt x y) c.leaves x y).getLast?

section
variable {a b : Point} {x y x' y' : Nat}

namespace Leaf

variable {leaf new : Leaf}

theorem colourAt?_eq (leaf : Leaf) (source : Option Picture) (x y : Nat) :
    leaf.colourAt? source x y = (leaf.sightAt x y).colour? source := by
  unfold colourAt? sightAt
  cases leaf.fill <;> rfl

theorem Readable.visible {source : Option Picture} (h : leaf.Readable source)
    (hc : leaf.rect.Covers x y) : (leaf.sightAt x y).Visible source := by
  unfold sightAt
  cases hfill : leaf.fill with
  | solid colour => exact trivial
  | image anchor =>
    obtain ⟨picture, hsource, hx, hy⟩ := h anchor hfill
    simp only [Rect.size, Point.diff, Rect.Covers] at hx hy hc
    exact ⟨picture, hsource, by omega, by omega⟩

/-- An anchor goes with its leaf, so what is seen goes by the same vector. -/
theorem Carried.sightAt (h : leaf.Carried a b new) (hx : x + a.x = x' + b.x)
    (hy : y + a.y = y' + b.y) (hc : new.rect.Covers x y) :
    (leaf.sightAt x' y').Carried a b (new.sightAt x y) := by
  obtain ⟨hrect, hfill⟩ := h
  have hleft := hrect.left
  have hbottom := hrect.bottom
  simp only [Rect.Covers] at hc
  unfold Leaf.sightAt
  generalize leaf.fill = f at hfill
  generalize new.fill = g at hfill
  cases hfill with
  | solid colour => exact .colour colour
  | image hpx hpy => exact .place (by omega) (by omega)

/-- A leaf that shows the source image at its own place shows each cell at its own place. -/
theorem sightAt_of_anchor (h : leaf.fill = .image leaf.rect.bottomLeft)
    (hc : leaf.rect.Covers x y) : leaf.sightAt x y = .place x y := by
  simp only [Rect.Covers] at hc
  unfold sightAt
  rw [h]
  simp only [Sight.place.injEq]
  omega

end Leaf

/-- Leaves that are carried along show what they showed, cell by cell. -/
theorem forall₂_seenAt_of_carried {leaves news : List Leaf}
    (h : List.Forall₂ (Leaf.Carried a b) leaves news) (hx : x + a.x = x' + b.x)
    (hy : y + a.y = y' + b.y) :
    List.Forall₂ (Sight.Carried a b) (seenAt (·.sightAt x' y') leaves x' y')
      (seenAt (·.sightAt x y) news x y) := by
  induction h with
  | nil => exact .nil
  | @cons leaf new leaves news hleaf _ ih =>
    rw [seenAt_cons, seenAt_cons]
    have hcovers := hleaf.rect.covers hx hy
    by_cases hc : new.rect.Covers x y
    · rw [if_pos (hcovers.1 hc), if_pos hc]
      exact .cons (hleaf.sightAt hx hy hc) ih
    · rw [if_neg fun hc' => hc (hcovers.2 hc'), if_neg hc]
      exact ih

theorem exists_getLast?_of_forall₂ {α β : Type} {R : α → β → Prop} {as : List α} {bs : List β}
    (h : List.Forall₂ R as bs) {a : α} (ha : as.getLast? = some a) :
    ∃ b, bs.getLast? = some b ∧ R a b := by
  rw [List.getLast?_eq_head?_reverse] at ha ⊢
  have hreverse := List.forall₂_reverse_iff.2 h
  generalize as.reverse = as at ha hreverse
  generalize bs.reverse = bs at hreverse
  cases hreverse with
  | nil => cases ha
  | cons hab _ =>
    cases ha
    exact ⟨_, rfl, hab⟩

end

/-! ## Contents that are carried along -/

namespace Block.Carried

variable {block new : Block}

theorem rect (h : block.Carried new) :
    block.rect.Shifted block.rect.bottomLeft new.rect.bottomLeft new.rect := by
  cases h with
  | simple h => exact h.rect
  | complex hrect _ => exact hrect

theorem leaves (h : block.Carried new) :
    List.Forall₂ (Leaf.Carried block.rect.bottomLeft new.rect.bottomLeft) block.leaves
      new.leaves := by
  cases h with
  | simple h => exact .cons h .nil
  | complex _ h => exact h

theorem inside (h : block.Carried new)
    (hin : ∀ leaf ∈ block.leaves, block.rect.Contains leaf.rect) :
    ∀ leaf ∈ new.leaves, new.rect.Contains leaf.rect := by
  intro leaf hl
  obtain ⟨old, hold, hleaf⟩ := exists_of_forall₂ h.leaves hl
  exact h.rect.contains hleaf.rect (hin old hold)

end Block.Carried

namespace Canvas

variable {c d : Canvas} {σ : Equiv.Perm String} {x y x' y' : Nat}

/-- The rectangle under a name stays. -/
theorem Permuted.exists_get? (h : c.Permuted σ d) {k : String} {new : Block}
    (hk : d.get? k = some new) : ∃ block old, c.get? k = some block ∧ c.get? (σ k) = some old ∧
      new.rect = block.rect ∧ old.Carried new := by
  obtain ⟨block, hblock⟩ := exists_get?_of_ids_eq h.ids hk
  obtain ⟨old, new', hold, hnew', hrect, hcarried⟩ := h.content hblock
  cases hk.symm.trans hnew'
  exact ⟨block, old, hblock, hold, hrect, hcarried⟩

/-- Permuted contents share no cells either. -/
theorem Permuted.separated (h : c.Permuted σ d) (hc : c.Separated) : d.Separated where
  disjoint e he e' he' hne x y hcovers hcovers' := by
    obtain ⟨block, -, hblock, -, hrect, -⟩ := h.exists_get? (Registry.get?_of_mem he)
    obtain ⟨block', -, hblock', -, hrect', -⟩ := h.exists_get? (Registry.get?_of_mem he')
    rw [hrect] at hcovers
    rw [hrect'] at hcovers'
    exact hc.disjoint _ (Registry.mem_of_get?_eq_some hblock) _
      (Registry.mem_of_get?_eq_some hblock') hne x y hcovers hcovers'
  inside e he := by
    obtain ⟨-, old, -, hold, -, hcarried⟩ := h.exists_get? (Registry.get?_of_mem he)
    exact hcarried.inside (hc.inside _ (Registry.mem_of_get?_eq_some hold))

/-- A cell shows what the cell that it goes back to showed. -/
theorem Permuted.sightAt?_carried (h : c.Permuted σ d) (hc : c.Separated) {k : String}
    {old new : Block} (hold : c.get? (σ k) = some old) (hnew : d.get? k = some new)
    (hcovers : new.rect.Covers x y) (hx : x + old.rect.bottomLeft.x = x' + new.rect.bottomLeft.x)
    (hy : y + old.rect.bottomLeft.y = y' + new.rect.bottomLeft.y) {sight : Sight}
    (hsight : c.sightAt? x' y' = some sight) :
    ∃ sight', d.sightAt? x y = some sight' ∧
      sight.Carried old.rect.bottomLeft new.rect.bottomLeft sight' := by
  obtain ⟨-, old', -, hold', -, hcarried⟩ := h.exists_get? hnew
  cases hold.symm.trans hold'
  have hcovers' := (hcarried.rect.covers hx hy).1 hcovers
  rw [sightAt?, hc.seenAt_of_get? _ hold hcovers'] at hsight
  rw [sightAt?, (h.separated hc).seenAt_of_get? _ hnew hcovers]
  exact exists_getLast?_of_forall₂ (forall₂_seenAt_of_carried hcarried.leaves hx hy) hsight

/-- A cell shows what it showed, if its block has not moved. -/
theorem Permuted.sightAt?_eq (h : c.Permuted σ d) (hc : c.Separated)
    (hfix : ∀ k block, c.get? k = some block → block.rect.Covers x y → σ k = k) :
    d.sightAt? x y = c.sightAt? x y := by
  unfold sightAt?
  by_cases hblock : ∃ e ∈ d.blocks.entries, e.2.rect.Covers x y
  · obtain ⟨⟨k, new⟩, he, hcovers⟩ := hblock
    have hnew : d.get? k = some new := Registry.get?_of_mem he
    obtain ⟨block, old, hblock, hold, hrect, hcarried⟩ := h.exists_get? hnew
    have hcovers' : block.rect.Covers x y := hrect ▸ hcovers
    rw [hfix k block hblock hcovers'] at hold
    cases hblock.symm.trans hold
    rw [hc.seenAt_of_get? _ hblock hcovers', (h.separated hc).seenAt_of_get? _ hnew hcovers,
      hcarried.eq_of_rect_eq hrect]
  · simp only [not_exists, not_and] at hblock
    rw [(h.separated hc).seenAt_of_not_covers _ hblock, hc.seenAt_of_not_covers]
    intro e he hcovers
    obtain ⟨-, new, -, hnew, hrect, -⟩ := h.content (Registry.get?_of_mem he)
    refine hblock _ (Registry.mem_of_get?_eq_some hnew) ?_
    rw [hrect]
    exact hcovers

end Canvas

/-! ## Frames -/

/-- Where a step gives something for each element, its last result is that of the last one. -/
theorem getLast?_filterMap_of_forall {α β : Type} {f : α → Option β} {as : List α}
    (h : ∀ a ∈ as, ∃ b, f a = some b) : (as.filterMap f).getLast? = as.getLast?.bind f := by
  rw [List.getLast?_filterMap, List.getLast?_eq_head?_reverse]
  cases hreverse : as.reverse with
  | nil => rfl
  | cons a rest =>
    have hmem : a ∈ as := List.mem_reverse.1 (hreverse ▸ List.mem_cons_self)
    obtain ⟨b, hb⟩ := h a hmem
    rw [List.findSome?_cons, hb, List.head?_cons, Option.bind_some, hb]

namespace Canvas

variable {c d : Canvas} {threading threading' : Threading} {f f' : Frame} {x y : Nat}

theorem visible_of_draw (hin : ∀ leaf ∈ c.leaves, c.bounds.Contains leaf.rect)
    (h : c.draw threading = .ok f) :
    ∀ sight ∈ seenAt (·.sightAt x y) c.leaves x y, sight.Visible c.source := by
  obtain ⟨_, _, _, hthreads, -⟩ := draw_eq_ok_iff.1 h
  obtain ⟨-, hreadable⟩ := (exists_draw_iff hin hthreads).1 ⟨f, h⟩
  intro sight hsight
  obtain ⟨leaf, hleaf, rfl⟩ := List.mem_map.1 hsight
  obtain ⟨hmem, hc⟩ := List.mem_filter.1 hleaf
  exact (hreadable leaf hmem).visible (of_decide_eq_true hc)

/-- Each pixel of a drawn canvas has the colour of what its cell shows, rows counted from the
top. -/
theorem pixel?_eq_of_draw (hin : ∀ leaf ∈ c.leaves, c.bounds.Contains leaf.rect)
    (h : c.draw threading = .ok f) (hx : x < c.width) (hy : y < c.height) :
    f.pixel? x (c.height - 1 - y)
      = some (((c.sightAt? x y).bind (·.colour? c.source)).getD .transparent) := by
  have hrow : c.height - 1 - (c.height - 1 - y) = y := by omega
  have hcolours : (c.leaves.filter (·.rect.Covers x y)).filterMap (·.colourAt? c.source x y)
      = (seenAt (·.sightAt x y) c.leaves x y).filterMap (·.colour? c.source) := by
    simp only [seenAt, List.filterMap_map, Leaf.colourAt?_eq]
    rfl
  have hpixel := pixel?_of_draw hin h hx (show c.height - 1 - y < c.height by omega)
  rw [hpixel, hrow, hcolours,
    getLast?_filterMap_of_forall fun sight hs => (visible_of_draw hin h sight hs).exists_colour?]
  rfl

/-- A cell that shows something has its colour in the frame. -/
theorem pixel?_of_sightAt? (hin : ∀ leaf ∈ c.leaves, c.bounds.Contains leaf.rect)
    (h : c.draw threading = .ok f) (hx : x < c.width) (hy : y < c.height) {sight : Sight}
    (hsight : c.sightAt? x y = some sight) :
    sight.Visible c.source ∧ f.pixel? x (c.height - 1 - y) = sight.colour? c.source := by
  have hvisible := visible_of_draw hin h sight (List.mem_of_getLast? hsight)
  obtain ⟨colour, hcolour⟩ := hvisible.exists_colour?
  refine ⟨hvisible, ?_⟩
  rw [pixel?_eq_of_draw hin h hx hy, hsight, Option.bind_some, hcolour, Option.getD_some]

/-- Canvases that show the same are drawn alike. -/
theorem frame_eq_of_sightAt?_eq (hin : ∀ leaf ∈ c.leaves, c.bounds.Contains leaf.rect)
    (hin' : ∀ leaf ∈ d.leaves, d.bounds.Contains leaf.rect) (h : c.draw threading = .ok f)
    (h' : d.draw threading' = .ok f') (hsize : d.size = c.size) (hsource : d.source = c.source)
    (hsights : ∀ x y, x < c.width → y < c.height → d.sightAt? x y = c.sightAt? x y) : f' = f := by
  have hw : d.width = c.width := congrArg Point.x hsize
  have hh : d.height = c.height := congrArg Point.y hsize
  refine frame_eq_of_pixel? h h' hsize fun column row hcolumn hrow => ?_
  have hrow' : c.height - 1 - (c.height - 1 - row) = row := by omega
  have hpixel := pixel?_eq_of_draw hin h hcolumn (y := c.height - 1 - row) (by omega)
  have hpixel' := pixel?_eq_of_draw hin' h' (hw ▸ hcolumn) (y := c.height - 1 - row) (by omega)
  rw [hh, hsource, hsights column _ hcolumn (by omega), ← hpixel, hrow'] at hpixel'
  exact hpixel'

end Canvas

/-! ## Swaps -/

/-- All leaves of the block show the source image, each at its own place. -/
def Block.InPlace (block : Block) : Prop :=
  ∀ leaf ∈ block.leaves, leaf.fill = .image leaf.rect.bottomLeft

namespace Canvas

/-- Blocks share no cells, and the leaves of each block tile it. -/
structure Paved (c : Canvas) : Prop where
  disjoint : ∀ e ∈ c.blocks.entries, ∀ e' ∈ c.blocks.entries, e.1 ≠ e'.1 →
    ∀ x y, e.2.rect.Covers x y → ¬ e'.2.rect.Covers x y
  tiled : ∀ e ∈ c.blocks.entries, e.2.Tiled

theorem Paved.separated {c : Canvas} (h : c.Paved) : c.Separated :=
  ⟨h.disjoint, fun e he => (h.tiled e he).inside⟩

/-- In the cells of `target` the canvas `d` shows, and its frame `f` has, what the canvas `c`
showed in the cells of `origin`: the same colour, or the place of the picture that is farther by
the vector between the lower-left corners. -/
structure CarriesSights (c d : Canvas) (picture : Picture) (f : Frame) (origin target : Rect) :
    Prop where
  colour : ∀ {x y x' y' : Nat} {k : Rgba}, target.Covers x y →
    x + origin.bottomLeft.x = x' + target.bottomLeft.x →
    y + origin.bottomLeft.y = y' + target.bottomLeft.y →
    c.sightAt? x' y' = some (.colour k) →
      d.sightAt? x y = some (.colour k) ∧ f.pixel? x (d.height - 1 - y) = some k
  place : ∀ {x y x' y' px py : Nat}, target.Covers x y →
    x + origin.bottomLeft.x = x' + target.bottomLeft.x →
    y + origin.bottomLeft.y = y' + target.bottomLeft.y →
    c.sightAt? x' y' = some (.place px py) →
      ∃ qx qy, qx + origin.bottomLeft.x = px + target.bottomLeft.x ∧
        qy + origin.bottomLeft.y = py + target.bottomLeft.y ∧
        d.sightAt? x y = some (.place qx qy) ∧ qx < picture.width ∧ qy < picture.height ∧
        f.pixel? x (d.height - 1 - y) = picture.pixel? qx (picture.height - 1 - qy)

variable {c d : Canvas} {σ : Equiv.Perm String} {threading : Threading} {f : Frame}
  {picture : Picture} {k : String} {block old : Block} {x y : Nat}

theorem Permuted.carriesSights (h : c.Permuted σ d) (hc : c.Separated)
    (hsource : c.source = some picture) (hf : d.draw threading = .ok f)
    (hblock : c.get? k = some block) (hold : c.get? (σ k) = some old) :
    c.CarriesSights d picture f old.rect block.rect := by
  obtain ⟨old', new, hold', hnew, hrect, -⟩ := h.content hblock
  cases hold.symm.trans hold'
  have hd := h.separated hc
  have hin := contains_bounds_of_mem_leaves hd.inside
  have hcell {x y : Nat} (hcovers : new.rect.Covers x y) : x < d.width ∧ y < d.height := by
    have hbounds := contains_bounds_iff.1 (contains_bounds_of_get? hnew)
    simp only [Rect.Covers] at hcovers
    simp only [width, height]
    omega
  rw [← hrect]
  constructor
  · intro x y x' y' k hcovers hx hy hsight
    obtain ⟨sight, hsight', hcarried⟩ := h.sightAt?_carried hc hold hnew hcovers hx hy hsight
    obtain ⟨hxd, hyd⟩ := hcell hcovers
    cases hcarried
    exact ⟨hsight', (pixel?_of_sightAt? hin hf hxd hyd hsight').2⟩
  · intro x y x' y' px py hcovers hx hy hsight
    obtain ⟨sight, hsight', hcarried⟩ := h.sightAt?_carried hc hold hnew hcovers hx hy hsight
    obtain ⟨hxd, hyd⟩ := hcell hcovers
    obtain _ | ⟨hqx, hqy⟩ := hcarried
    obtain ⟨⟨picture', hpicture, hwidth, hheight⟩, hpixel⟩ :=
      pixel?_of_sightAt? hin hf hxd hyd hsight'
    rw [h.source, hsource] at hpicture hpixel
    cases hpicture
    exact ⟨_, _, hqx, hqy, hsight', hwidth, hheight, hpixel⟩

/-- A block that shows the source image in place shows each cell at its own place. -/
theorem Separated.sightAt?_of_inPlace (hc : c.Separated) (hb : c.get? k = some block)
    (htiled : block.Tiled) (hplace : block.InPlace) (hcovers : block.rect.Covers x y) :
    c.sightAt? x y = some (.place x y) := by
  have hlength : (seenAt (·.sightAt x y) block.leaves x y).length = 1 := by
    rw [seenAt, List.length_map, ← List.countP_eq_length_filter]
    exact htiled.once x y hcovers
  have hall : ∀ sight ∈ seenAt (·.sightAt x y) block.leaves x y, sight = .place x y := by
    intro sight hsight
    obtain ⟨leaf, hleaf, rfl⟩ := List.mem_map.1 hsight
    obtain ⟨hmem, hleaf⟩ := List.mem_filter.1 hleaf
    exact Leaf.sightAt_of_anchor (hplace leaf hmem) (of_decide_eq_true hleaf)
  obtain ⟨sight, hone⟩ := List.length_eq_one_iff.1 hlength
  rw [sightAt?, hc.seenAt_of_get? _ hb hcovers, hone, List.getLast?_singleton,
    hall sight (hone ▸ List.mem_singleton_self sight)]

/-- A content that shows the source image in place does so at its new place too. -/
theorem Permuted.sightAt?_of_inPlace (h : c.Permuted σ d) (hc : c.Separated)
    (hblock : c.get? k = some block) (hold : c.get? (σ k) = some old) (htiled : old.Tiled)
    (hplace : old.InPlace) (hcovers : block.rect.Covers x y) :
    d.sightAt? x y = some (.place x y) := by
  obtain ⟨old', new, hold', hnew, hrect, hcarried⟩ := h.content hblock
  cases hold.symm.trans hold'
  rw [← hrect] at hcovers
  obtain ⟨x', y', hcovers', hx, hy⟩ := hcarried.rect.exists_covers hcovers
  have hsight := hc.sightAt?_of_inPlace hold htiled hplace hcovers'
  obtain ⟨sight, hsight', hmoved⟩ := h.sightAt?_carried hc hold hnew hcovers hx hy hsight
  -- the place goes by the vector by which the cell went
  obtain _ | ⟨hqx, hqy⟩ := hmoved
  rw [hsight', Nat.add_right_cancel (hqx.trans hx.symm), Nat.add_right_cancel (hqy.trans hy.symm)]

section
variable {id₁ id₂ : String} {block₁ block₂ : Block}
  (h : c.Permuted (Equiv.swap id₁ id₂) d) (hb₁ : c.get? id₁ = some block₁)
  (hb₂ : c.get? id₂ = some block₂)
include h hb₁ hb₂

/-- Cells outside two blocks that are swapped show what they showed. -/
theorem Permuted.sightAt?_of_not_covers (hc : c.Separated) (h₁ : ¬ block₁.rect.Covers x y)
    (h₂ : ¬ block₂.rect.Covers x y) : d.sightAt? x y = c.sightAt? x y := by
  refine h.sightAt?_eq hc fun k block hk hcovers => ?_
  refine Equiv.swap_apply_of_ne_of_ne ?_ ?_
  · rintro rfl
    cases hk.symm.trans hb₁
    exact h₁ hcovers
  · rintro rfl
    cases hk.symm.trans hb₂
    exact h₂ hcovers

/-- Of two blocks that show the source image in place, each cell shows its own place before and
after a swap. -/
theorem Permuted.sightAt?_eq_of_inPlace (hc : c.Paved) (hplace₁ : block₁.InPlace)
    (hplace₂ : block₂.InPlace) : d.sightAt? x y = c.sightAt? x y := by
  have hsep := hc.separated
  have htiled₁ := hc.tiled _ (Registry.mem_of_get?_eq_some hb₁)
  have htiled₂ := hc.tiled _ (Registry.mem_of_get?_eq_some hb₂)
  by_cases h₁ : block₁.rect.Covers x y
  · have hfrom := (congrArg c.get? (Equiv.swap_apply_left id₁ id₂)).trans hb₂
    rw [hsep.sightAt?_of_inPlace hb₁ htiled₁ hplace₁ h₁]
    exact h.sightAt?_of_inPlace hsep hb₁ hfrom htiled₂ hplace₂ h₁
  by_cases h₂ : block₂.rect.Covers x y
  · have hfrom := (congrArg c.get? (Equiv.swap_apply_right id₁ id₂)).trans hb₁
    rw [hsep.sightAt?_of_inPlace hb₂ htiled₂ hplace₂ h₂]
    exact h.sightAt?_of_inPlace hsep hb₂ hfrom htiled₁ hplace₁ h₂
  · exact h.sightAt?_of_not_covers hb₁ hb₂ hsep h₁ h₂

end

end Canvas

/-- On a canvas with a source image whose blocks share no cells and are tiled by their leaves, let
two blocks be swapped, and let the canvas be drawn before and after it. Each cell of either block
shows what the cell that it goes back to showed: the same colour, or the place of the source image
that is farther by the vector from the lower-left corner of the one block to that of the other.
Every cell outside the two blocks shows what it showed. So if all leaves of both blocks show the
source image at their own places, the frame stays the same. -/
theorem swap_carries_sights {s t : Interpreter} {picture : Picture}
    (hsource : s.canvas.source = some picture) (hpaved : s.canvas.Paved) {id₁ id₂ : String}
    {cost : Nat} (h : Edit.apply (.swap id₁ id₂) s = .ok cost t) {threading threading' : Threading}
    {f f' : Frame} (hf : s.canvas.draw threading = .ok f)
    (hf' : t.canvas.draw threading' = .ok f') :
    ∃ block₁ block₂, s.canvas.get? id₁ = some block₁ ∧ s.canvas.get? id₂ = some block₂ ∧
      s.canvas.CarriesSights t.canvas picture f' block₂.rect block₁.rect ∧
      s.canvas.CarriesSights t.canvas picture f' block₁.rect block₂.rect ∧
      (∀ x y, x < s.canvas.width → y < s.canvas.height → ¬ block₁.rect.Covers x y →
        ¬ block₂.rect.Covers x y → t.canvas.sightAt? x y = s.canvas.sightAt? x y ∧
          f'.pixel? x (s.canvas.height - 1 - y) = f.pixel? x (s.canvas.height - 1 - y)) ∧
      (block₁.InPlace → block₂.InPlace → f' = f) := by
  obtain ⟨block₁, block₂, new₁, new₂, hswaps, -⟩ := Interpreter.swaps_of_apply h
  have hpermuted := Interpreter.permuted_of_apply h
  have hsep := hpaved.separated
  have hsep' := hpermuted.separated hsep
  have hin := Canvas.contains_bounds_of_mem_leaves hsep.inside
  have hin' := Canvas.contains_bounds_of_mem_leaves hsep'.inside
  have hfrom₁ := (congrArg s.canvas.get? (Equiv.swap_apply_left id₁ id₂)).trans hswaps.right
  have hfrom₂ := (congrArg s.canvas.get? (Equiv.swap_apply_right id₁ id₂)).trans hswaps.left
  have hheight : t.canvas.height = s.canvas.height := congrArg Point.y hpermuted.size
  have hwidth : t.canvas.width = s.canvas.width := congrArg Point.x hpermuted.size
  refine ⟨block₁, block₂, hswaps.left, hswaps.right,
    hpermuted.carriesSights hsep hsource hf' hswaps.left hfrom₁,
    hpermuted.carriesSights hsep hsource hf' hswaps.right hfrom₂, ?_, ?_⟩
  · intro x y hx hy h₁ h₂
    have hsight := hpermuted.sightAt?_of_not_covers hswaps.left hswaps.right hsep h₁ h₂
    have hpixel' := Canvas.pixel?_eq_of_draw hin' hf' (hwidth ▸ hx) (hheight ▸ hy)
    rw [hheight, hpermuted.source, hsight, ← Canvas.pixel?_eq_of_draw hin hf hx hy] at hpixel'
    exact ⟨hsight, hpixel'⟩
  · intro hplace₁ hplace₂
    refine Canvas.frame_eq_of_sightAt?_eq hin hin' hf hf' hpermuted.size hpermuted.source ?_
    intro x y _ _
    exact hpermuted.sightAt?_eq_of_inPlace hswaps.left hswaps.right hpaved hplace₁ hplace₂

/-- A window of the source image that is not in place, and a colour. -/
theorem swap_carries_sights_window :
    let layout : Layout :=
      { size := .ofCoordinates 6 2
        presets :=
          [{ id := "a", bottomLeft := .origin, topRight := .ofCoordinates 2 2,
             anchor := some (.ofCoordinates 1 0) },
           { id := "b", bottomLeft := .ofCoordinates 2 0, topRight := .ofCoordinates 4 2,
             colour := some .white }]
        sourcePixels := some (Array.replicate 12 .transparent) }
    ∃ c picture cost t f f', Canvas.ofLayout layout = .ok c ∧ c.source = some picture ∧ c.Paved ∧
      Edit.apply (.swap "a" "b") (.ofCanvas c .legacy) = .ok cost t ∧ c.draw {} = .ok f ∧
        t.canvas.draw {} = .ok f' ∧ f'.pixel? 3 0 = picture.pixel? 4 0 ∧
          f'.pixel? 0 1 = some .white := by
  intro layout
  obtain ⟨c, hc⟩ : ∃ c, Canvas.ofLayout layout = .ok c := ⟨_, rfl⟩
  obtain ⟨picture, hpicture, hheight⟩ : ∃ picture,
      c.source = some picture ∧ picture.height = 2 := by
    cases hc
    exact ⟨_, rfl, rfl⟩
  obtain ⟨left, hleft⟩ : ∃ left, Leaf.ofCorners .origin (.ofCoordinates 2 2)
    (.image (.ofCoordinates 1 0)) = .ok left := ⟨_, rfl⟩
  obtain ⟨right, hright⟩ : ∃ right, Leaf.ofCorners (.ofCoordinates 2 0) (.ofCoordinates 4 2)
    (.solid .white) = .ok right := ⟨_, rfl⟩
  have hentries : c.blocks.entries = [("a", .simple left), ("b", .simple right)] := by
    cases hc
    cases hleft
    cases hright
    decide +kernel
  have hsights : c.sightAt? 1 1 = some (.place 2 1) ∧ c.sightAt? 2 0 = some (.colour .white) := by
    cases hc
    decide +kernel
  obtain ⟨cost, t, ht, hdraws⟩ : ∃ cost t,
      Edit.apply (.swap "a" "b") (.ofCanvas c .legacy) = .ok cost t ∧
        (c.draw {}).isOk ∧ (t.canvas.draw {}).isOk ∧ t.canvas.height = 2 := by
    cases hc
    refine Interpreter.exists_apply_of_accepts ?_
    decide +kernel
  obtain ⟨f, hf⟩ := exists_of_isOk hdraws.1
  obtain ⟨f', hf'⟩ := exists_of_isOk hdraws.2.1
  have hcorners : left.rect.bottomLeft = .origin ∧ left.rect.topRight = .ofCoordinates 2 2 ∧
      right.rect.bottomLeft = .ofCoordinates 2 0 ∧ right.rect.topRight = .ofCoordinates 4 2 := by
    cases hleft
    cases hright
    decide
  obtain ⟨hbl, htr, hbl', htr'⟩ := hcorners
  have hapart (x y : Nat) (h : left.rect.Covers x y) : ¬ right.rect.Covers x y := by
    rw [Rect.Covers, htr] at h
    rw [Rect.Covers, hbl']
    simp only [Point.ofCoordinates] at h ⊢
    omega
  have hpaved : c.Paved := by
    constructor
    · intro e he e' he' hne x y hcovers hcovers'
      rw [hentries] at he he'
      rcases List.mem_pair.1 he with rfl | rfl <;> rcases List.mem_pair.1 he' with rfl | rfl
      · exact hne rfl
      · exact hapart x y hcovers hcovers'
      · exact hapart x y hcovers' hcovers
      · exact hne rfl
    · intro e he
      rw [hentries] at he
      rcases List.mem_pair.1 he with rfl | rfl <;> exact Block.tiled_simple _
  obtain ⟨block₁, block₂, hb₁, hb₂, hto₁, hto₂, -⟩ :=
    swap_carries_sights (s := .ofCanvas c .legacy) hpicture hpaved ht hf hf'
  have hget₁ : c.get? "a" = some (.simple left) :=
    Registry.get?_of_mem (e := ("a", _)) (by rw [hentries]; exact List.mem_cons_self)
  have hget₂ : c.get? "b" = some (.simple right) :=
    Registry.get?_of_mem (e := ("b", _)) (by rw [hentries]; exact .tail _ (.head _))
  cases hb₁.symm.trans hget₁
  cases hb₂.symm.trans hget₂
  have hwhite := hto₁.colour (x := 0) (y := 0)
    (by rw [Block.rect, Rect.Covers, hbl, htr]; decide)
    (by rw [Block.rect, Block.rect, hbl, hbl']; decide)
    (by rw [Block.rect, Block.rect, hbl, hbl']; decide) hsights.2
  obtain ⟨qx, qy, hqx, hqy, -, -, -, hpixel⟩ :=
    hto₂.place (x := 3) (y := 1)
      (by rw [Block.rect, Rect.Covers, hbl', htr']; decide)
      (by rw [Block.rect, Block.rect, hbl, hbl']; decide)
      (by rw [Block.rect, Block.rect, hbl, hbl']; decide) hsights.1
  -- the window starts at column one, and its block goes two columns to the right
  have hx : qx = 4 := by
    rw [Block.rect, Block.rect, hbl, hbl'] at hqx
    exact hqx
  have hy : qy = 1 := by
    rw [Block.rect, Block.rect, hbl, hbl'] at hqy
    exact hqy
  subst hx hy
  rw [hdraws.2.2] at hwhite hpixel
  rw [hheight] at hpixel
  exact ⟨c, picture, cost, t, f, f', hc, hpicture, hpaved, ht, hf, hf', hpixel, hwhite.2⟩

end Easel
