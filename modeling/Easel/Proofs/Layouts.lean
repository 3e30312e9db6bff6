import Easel.Proofs.Outcome

/-!
# Canvases that a layout describes

A layout is valid if its size has cells, its pixels are as many as the canvas has cells and are
there when a preset shows them, and its presets have different names and can stand on the
canvas one by one. Just the valid layouts give a canvas, and then nothing is on it but what the
layout says.

`addPreset` is told by when it works (`exists_addPreset_iff`), what it leaves
(`addPreset_eq_ok_iff`) and why it fails (`addPreset_eq_error_iff`). Over a list of presets it
is a fold in which the first failure ends the work, so the presets before it have all been put
down, and their names are the ones that are taken (`foldlM_addPreset_eq_error_iff`).

Main statement: `layout_describes_canvas`.
-/

namespace Easel

/-! ## What a layout says -/

namespace Preset

/-- What the preset shows: its colour, and only without one the source image from its anchor. -/
inductive Shows (p : Preset) : Fill → Prop
  | colour {colour : Rgba} (h : p.colour = some colour) : Shows p (.solid colour)
  | anchor {anchor : Point} (hcolour : p.colour = none) (h : p.anchor = some anchor) :
      Shows p (.image anchor)

/-- The preset has a colour or an anchor. -/
def Filled (p : Preset) : Prop :=
  p.colour ≠ none ∨ p.anchor ≠ none

/-- The preset can stand on a canvas of the given size. -/
structure FitsOn (p : Preset) (size : Point) : Prop where
  filled : p.Filled
  x_lt : p.bottomLeft.x < p.topRight.x
  y_lt : p.bottomLeft.y < p.topRight.y
  x_le : p.topRight.x ≤ size.x
  y_le : p.topRight.y ≤ size.y

/-- Why a preset is refused on a canvas of the given size where some names are taken. The name
is looked at first, then the fill, the corners and the place. -/
inductive RefusedFor (p : Preset) (size : Point) (taken : List String) : Error → Prop
  | duplicate (hid : p.id ∈ taken) : RefusedFor p size taken (.duplicatePreset p.id)
  | unfilled (hid : p.id ∉ taken) (hfill : ¬ p.Filled) :
      RefusedFor p size taken (.presetWithoutFill p.id)
  | inverted (hid : p.id ∉ taken) (hfill : p.Filled)
      (h : p.topRight.x < p.bottomLeft.x ∨ p.topRight.y < p.bottomLeft.y) :
      RefusedFor p size taken (.invertedCorners p.bottomLeft p.topRight)
  | flat (hid : p.id ∉ taken) (hfill : p.Filled)
      (hle : p.bottomLeft.x ≤ p.topRight.x ∧ p.bottomLeft.y ≤ p.topRight.y)
      (h : p.bottomLeft.x = p.topRight.x ∨ p.bottomLeft.y = p.topRight.y) :
      RefusedFor p size taken (.noArea p.bottomLeft p.topRight)
  | outside {rect : Rect} (hid : p.id ∉ taken) (hfill : p.Filled)
      (hbl : rect.bottomLeft = p.bottomLeft) (htr : rect.topRight = p.topRight)
      (h : size.x < p.topRight.x ∨ size.y < p.topRight.y) :
      RefusedFor p size taken (.outsideCanvas p.id rect size.x size.y)

/-- The entry of a canvas is what the preset says: one leaf under its name, with its corners and
its fill. -/
structure Becomes (p : Preset) (e : String × Block) : Prop where
  id_eq : e.1 = p.id
  block_eq : ∃ leaf, e.2 = .simple leaf ∧ leaf.rect.bottomLeft = p.bottomLeft ∧
    leaf.rect.topRight = p.topRight ∧ p.Shows leaf.fill

end Preset

namespace Layout

/-- The layout has a size, and the pixels for it if it has or needs any. -/
structure Grounded (l : Layout) : Prop where
  width_pos : 0 < l.size.x
  height_pos : 0 < l.size.y
  pixels_size : ∀ pixels, l.sourcePixels = some pixels → pixels.size = l.size.x * l.size.y
  pixels_given : (∃ p ∈ l.presets, p.colour = none ∧ p.anchor ≠ none) → l.sourcePixels ≠ none

/-- The layout has nothing amiss. -/
structure Valid (l : Layout) : Prop extends l.Grounded where
  ids_nodup : (l.presets.map (·.id)).Nodup
  fitsOn : ∀ p ∈ l.presets, p.FitsOn l.size

/-- The canvas has the size and the source image of the layout and is white behind its blocks. -/
structure Underlies (l : Layout) (c : Canvas) : Prop where
  size_eq : c.size = l.size
  background_eq : c.background = .white
  source_iff : ∀ picture, c.source = some picture ↔
    picture.width = l.size.x ∧ picture.height = l.size.y ∧ l.sourcePixels = some picture.pixels

/-- The canvas has what the layout says and nothing else. -/
structure Describes (l : Layout) (c : Canvas) : Prop extends l.Underlies c where
  presets : l.presets ≠ [] → List.Forall₂ Preset.Becomes l.presets c.blocks.entries
  root : l.presets = [] →
    c.blocks.entries = [(Canvas.rootId, .simple { rect := c.bounds, fill := .solid .white })]

end Layout

/-! ## One preset -/

/-- A fold ends with the first failure, on what the steps before have made. -/
theorem foldlM_eq_error_iff {ε α β : Type} {f : β → α → Except ε β} {as : List α} {b : β} {e : ε} :
    as.foldlM f b = .error e ↔ ∃ before a after b', as = before ++ a :: after ∧
      before.foldlM f b = .ok b' ∧ f b' a = .error e := by
  constructor
  · intro h
    induction as generalizing b with
    | nil => cases h
    | cons a as ih =>
      rw [List.foldlM_cons, bind_eq_error_iff] at h
      rcases h with ha | ⟨b', hb, has⟩
      · exact ⟨[], a, as, b, rfl, rfl, ha⟩
      · obtain ⟨before, a', after, b'', rfl, hbefore, hfail⟩ := ih has
        refine ⟨a :: before, a', after, b'', rfl, ?_, hfail⟩
        rw [List.foldlM_cons]
        exact bind_eq_ok_iff.2 ⟨b', hb, hbefore⟩
  · intro h
    obtain ⟨before, a, after, b', rfl, hbefore, hfail⟩ := h
    rw [List.foldlM_append, bind_eq_error_iff]
    refine .inr ⟨b', hbefore, ?_⟩
    rw [List.foldlM_cons, bind_eq_error_iff]
    exact .inl hfail

/-- Corners are refused as inverted before they are refused for want of an area. -/
theorem Rect.ofCorners_eq_error_iff {p q : Point} {e : Error} : ofCorners p q = .error e ↔
    ((q.x < p.x ∨ q.y < p.y) ∧ e = .invertedCorners p q) ∨
      (p.x ≤ q.x ∧ p.y ≤ q.y) ∧ (p.x = q.x ∨ p.y = q.y) ∧ e = .noArea p q := by
  unfold ofCorners
  split
  next hinverted =>
    have hle : ¬ (p.x ≤ q.x ∧ p.y ≤ q.y) := by omega
    simp only [Except.error.injEq, hinverted, hle, true_and, false_and, or_false, eq_comm]
  next hinverted =>
    have hle : p.x ≤ q.x ∧ p.y ≤ q.y := by omega
    split
    next hlt =>
      have hflat : ¬ (p.x = q.x ∨ p.y = q.y) := by omega
      simp only [reduceCtorEq, hinverted, hflat, false_and, and_false, or_self]
    next hlt =>
      have hflat : p.x = q.x ∨ p.y = q.y := by omega
      simp only [Except.error.injEq, hinverted, hle, hflat, false_and, true_and, false_or,
        and_self, eq_comm]

namespace Preset

variable {p : Preset}

/-- The fill of a preset is what it shows. -/
theorem fill_eq_ok_iff {f : Fill} : p.fill = .ok f ↔ p.Shows f := by
  unfold fill
  constructor
  · intro h
    split at h
    next colour hcolour =>
      cases h
      exact .colour hcolour
    next anchor hcolour hanchor =>
      cases h
      exact .anchor hcolour hanchor
    next => cases h
  · intro h
    cases h with
    | colour hcolour => rw [hcolour]
    | anchor hcolour hanchor => rw [hcolour, hanchor]

/-- Only a preset with neither a colour nor an anchor has no fill. -/
theorem fill_eq_error_iff {e : Error} :
    p.fill = .error e ↔ ¬ p.Filled ∧ e = .presetWithoutFill p.id := by
  unfold fill Filled
  cases hcolour : p.colour <;> cases hanchor : p.anchor <;> simp [eq_comm]

theorem exists_shows_iff : (∃ f, p.Shows f) ↔ p.Filled := by
  simp only [← fill_eq_ok_iff]
  cases hfill : p.fill with
  | error e =>
    have hnone := (fill_eq_error_iff.1 hfill).1
    simp [hnone]
  | ok f =>
    have hfilled : p.Filled := by
      by_contra hnone
      rw [fill_eq_error_iff.2 ⟨hnone, rfl⟩] at hfill
      cases hfill
    simp [hfilled]

end Preset

namespace Canvas

variable {c d : Canvas} {p : Preset} {layout : Layout}

/-- What was put on a canvas lies inside. -/
theorem contains_bounds_of_insert {id : String} {b : Block} (h : c.insert id b = .ok d) :
    c.bounds.Contains b.rect := by
  by_contra hout
  rw [insert_eq_error_iff.2 ⟨hout, rfl⟩] at h
  cases h

/-- A preset with a new name is put down in three steps, each of which can be refused. -/
theorem addPreset_eq (hid : p.id ∉ c.ids) : c.addPreset p = (do
    let fill ← p.fill
    let rect ← Rect.ofCorners p.bottomLeft p.topRight
    c.insert p.id (.simple { rect, fill })) := by
  unfold addPreset Leaf.ofCorners
  rw [if_neg hid]
  refine congrArg (p.fill >>= ·) (funext fun fill => ?_)
  cases Rect.ofCorners p.bottomLeft p.topRight <;> rfl

/-- A preset goes last, as it is said. -/
theorem addPreset_eq_ok_iff : c.addPreset p = .ok d ↔ p.id ∉ c.ids ∧ ∃ leaf : Leaf,
    (leaf.rect.bottomLeft = p.bottomLeft ∧ leaf.rect.topRight = p.topRight ∧
      p.Shows leaf.fill) ∧ c.insert p.id (.simple leaf) = .ok d := by
  by_cases hid : p.id ∈ c.ids
  · refine iff_of_false (fun h => ?_) fun h => h.1 hid
    unfold addPreset at h
    rw [if_pos hid] at h
    cases h
  · rw [addPreset_eq hid]
    simp only [bind_eq_ok_iff, Preset.fill_eq_ok_iff, Rect.ofCorners_eq_ok_iff, hid,
      not_false_eq_true, true_and]
    constructor
    · intro h
      obtain ⟨fill, hfill, rect, ⟨hbl, htr⟩, hd⟩ := h
      exact ⟨⟨rect, fill⟩, ⟨hbl, htr, hfill⟩, hd⟩
    · intro h
      obtain ⟨leaf, ⟨hbl, htr, hfill⟩, hd⟩ := h
      exact ⟨leaf.fill, hfill, leaf.rect, ⟨hbl, htr⟩, hd⟩

/-- A preset can be put down if its name is new and it can stand on the canvas. -/
theorem exists_addPreset_iff :
    (∃ d, c.addPreset p = .ok d) ↔ p.id ∉ c.ids ∧ p.FitsOn c.size := by
  simp only [addPreset_eq_ok_iff]
  constructor
  · intro h
    obtain ⟨d, hid, leaf, ⟨hbl, htr, hfill⟩, hd⟩ := h
    have hin := contains_bounds_iff.1 (contains_bounds_of_insert hd)
    have hx := leaf.rect.x_lt
    have hy := leaf.rect.y_lt
    simp only [Block.rect, htr] at hin
    rw [hbl, htr] at hx hy
    exact ⟨hid, Preset.exists_shows_iff.1 ⟨_, hfill⟩, hx, hy, hin.1, hin.2⟩
  · intro h
    obtain ⟨hid, hfit⟩ := h
    obtain ⟨fill, hfill⟩ := Preset.exists_shows_iff.2 hfit.filled
    let leaf : Leaf := { rect := ⟨p.bottomLeft, p.topRight, hfit.x_lt, hfit.y_lt⟩, fill }
    have hin : c.bounds.Contains (Block.simple leaf).rect :=
      contains_bounds_iff.2 ⟨hfit.x_le, hfit.y_le⟩
    obtain ⟨d, hd, -⟩ := exists_insert p.id hin
    exact ⟨d, hid, leaf, ⟨rfl, rfl, hfill⟩, hd⟩

/-- A preset that is not put down is refused for the first thing that is amiss with it. -/
theorem addPreset_eq_error_iff {e : Error} :
    c.addPreset p = .error e ↔ p.RefusedFor c.size c.ids e := by
  by_cases hid : p.id ∈ c.ids
  · unfold addPreset
    rw [if_pos hid, Except.error.injEq]
    constructor
    · intro h
      subst h
      exact .duplicate hid
    · intro h
      cases h with
      | duplicate => rfl
      | unfilled hnew | inverted hnew | flat hnew | outside hnew => exact absurd hid hnew
  · rw [addPreset_eq hid]
    simp only [bind_eq_error_iff, Preset.fill_eq_error_iff, Preset.fill_eq_ok_iff,
      Rect.ofCorners_eq_error_iff, Rect.ofCorners_eq_ok_iff, insert_eq_error_iff,
      contains_bounds_iff, Block.rect]
    constructor
    · intro h
      obtain ⟨hfill, rfl⟩ | ⟨fill, hfill, h⟩ := h
      · exact .unfilled hid hfill
      · have hfilled := Preset.exists_shows_iff.1 ⟨fill, hfill⟩
        obtain (⟨hinv, rfl⟩ | ⟨hle, hflat, rfl⟩) | ⟨rect, ⟨hbl, htr⟩, hout, rfl⟩ := h
        · exact .inverted hid hfilled hinv
        · exact .flat hid hfilled hle hflat
        · rw [htr] at hout
          exact .outside hid hfilled hbl htr (by omega)
    · intro h
      cases h with
      | duplicate hold => exact absurd hold hid
      | unfilled _ hfill => exact .inl ⟨hfill, rfl⟩
      | inverted _ hfilled h =>
        obtain ⟨fill, hfill⟩ := Preset.exists_shows_iff.2 hfilled
        exact .inr ⟨fill, hfill, .inl (.inl ⟨h, rfl⟩)⟩
      | flat _ hfilled hle h =>
        obtain ⟨fill, hfill⟩ := Preset.exists_shows_iff.2 hfilled
        exact .inr ⟨fill, hfill, .inl (.inr ⟨hle, h, rfl⟩)⟩
      | @outside rect _ hfilled hbl htr h =>
        obtain ⟨fill, hfill⟩ := Preset.exists_shows_iff.2 hfilled
        refine .inr ⟨fill, hfill, .inr ⟨rect, ⟨hbl, htr⟩, ?_, rfl⟩⟩
        rw [htr]
        omega

/-- A preset adds its entry and changes nothing else. -/
theorem of_addPreset (h : c.addPreset p = .ok d) :
    c.Rearranged d.blocks d ∧ ∃ e, d.blocks.entries = c.blocks.entries ++ [e] ∧ p.Becomes e := by
  obtain ⟨hid, leaf, ⟨hbl, htr, hfill⟩, hd⟩ := addPreset_eq_ok_iff.1 h
  have hr := rearranged_insert hd
  refine ⟨⟨hr.size, hr.background, hr.source, rfl⟩, (p.id, .simple leaf), ?_, rfl, leaf, rfl,
    hbl, htr, hfill⟩
  rw [hr.blocks, Registry.entries_insert_of_not_mem hid]

/-- A preset adds its name as the last one. -/
theorem ids_addPreset (h : c.addPreset p = .ok d) : d.ids = c.ids ++ [p.id] := by
  obtain ⟨-, e, hentries, he⟩ := of_addPreset h
  unfold ids Registry.names
  rw [hentries, List.map_append, List.map_singleton, he.id_eq]

/-! ## A list of presets -/

variable {presets : List Preset}

/-- Presets add their entries in their order. -/
theorem of_foldlM_addPreset (h : presets.foldlM addPreset c = .ok d) :
    c.Rearranged d.blocks d ∧ ∃ news, d.blocks.entries = c.blocks.entries ++ news ∧
      List.Forall₂ Preset.Becomes presets news := by
  induction presets generalizing c with
  | nil =>
    cases h
    exact ⟨Rearranged.refl _, [], (List.append_nil _).symm, .nil⟩
  | cons p presets ih =>
    rw [List.foldlM_cons] at h
    obtain ⟨b, hb, hd⟩ := bind_eq_ok_iff.1 h
    obtain ⟨hr, e, hentries, he⟩ := of_addPreset hb
    obtain ⟨hr', news, hnews, hall⟩ := ih hd
    refine ⟨hr.trans hr', e :: news, ?_, .cons he hall⟩
    rw [hnews, hentries, List.append_assoc, List.singleton_append]

/-- Presets add their names in their order. -/
theorem ids_foldlM_addPreset (h : presets.foldlM addPreset c = .ok d) :
    d.ids = c.ids ++ presets.map (·.id) := by
  obtain ⟨-, news, hentries, hnews⟩ := of_foldlM_addPreset h
  have hids : news.map (·.1) = presets.map (·.id) := by
    clear h hentries
    induction hnews with
    | nil => rfl
    | cons he _ ih => rw [List.map_cons, List.map_cons, he.id_eq, ih]
  unfold ids Registry.names
  rw [hentries, List.map_append, hids]

/-- Presets can be put down if each of them could be and no name is taken twice. -/
theorem exists_foldlM_addPreset_iff : (∃ d, presets.foldlM addPreset c = .ok d) ↔
    (c.ids ++ presets.map (·.id)).Nodup ∧ ∀ p ∈ presets, p.FitsOn c.size := by
  induction presets generalizing c with
  | nil =>
    refine iff_of_true ⟨c, rfl⟩ ⟨?_, nofun⟩
    rw [List.map_nil, List.append_nil]
    exact c.blocks.nodup
  | cons p presets ih =>
    -- what is left to do is to be done on the canvas that has the first preset
    have hrest : ∀ b, c.addPreset p = .ok b → ((∃ d, presets.foldlM addPreset b = .ok d) ↔
        (c.ids ++ (p :: presets).map (·.id)).Nodup ∧ ∀ q ∈ presets, q.FitsOn c.size) := by
      intro b hb
      rw [ih, ids_addPreset hb, (of_addPreset hb).1.size, List.append_assoc, List.map_cons,
        List.singleton_append]
    simp only [List.foldlM_cons, bind_eq_ok_iff, List.forall_mem_cons]
    constructor
    · intro h
      obtain ⟨d, b, hb, hd⟩ := h
      obtain ⟨hnodup, hfits⟩ := (hrest b hb).1 ⟨d, hd⟩
      exact ⟨hnodup, (exists_addPreset_iff.1 ⟨b, hb⟩).2, hfits⟩
    · intro h
      obtain ⟨hnodup, hp, hfits⟩ := h
      have hid : p.id ∉ c.ids := by
        intro hmem
        exact (List.nodup_append.1 hnodup).2.2 _ hmem _ List.mem_cons_self rfl
      obtain ⟨b, hb⟩ := exists_addPreset_iff.2 ⟨hid, hp⟩
      obtain ⟨d, hd⟩ := (hrest b hb).2 ⟨hnodup, hfits⟩
      exact ⟨d, b, hb, hd⟩

/-- The first preset that cannot be put down is the cause of refusal. -/
theorem foldlM_addPreset_eq_error_iff {e : Error} : presets.foldlM addPreset c = .error e ↔
    ∃ before p after, presets = before ++ p :: after ∧ (c.ids ++ before.map (·.id)).Nodup ∧
      (∀ q ∈ before, q.FitsOn c.size) ∧ p.RefusedFor c.size (c.ids ++ before.map (·.id)) e := by
  simp only [foldlM_eq_error_iff, addPreset_eq_error_iff]
  constructor
  · intro h
    obtain ⟨before, p, after, d, hpresets, hd, hp⟩ := h
    obtain ⟨hnodup, hfits⟩ := exists_foldlM_addPreset_iff.1 ⟨d, hd⟩
    rw [ids_foldlM_addPreset hd, (of_foldlM_addPreset hd).1.size] at hp
    exact ⟨before, p, after, hpresets, hnodup, hfits, hp⟩
  · intro h
    obtain ⟨before, p, after, hpresets, hnodup, hfits, hp⟩ := h
    obtain ⟨d, hd⟩ := exists_foldlM_addPreset_iff.2 ⟨hnodup, hfits⟩
    refine ⟨before, p, after, d, hpresets, hd, ?_⟩
    rw [ids_foldlM_addPreset hd, (of_foldlM_addPreset hd).1.size]
    exact hp

end Canvas

/-! ## The canvas below -/

/-- A picture is made of all pixels of the given size and of nothing else. -/
theorem Picture.ofPixels_eq_ok_iff {size : Point} {pixels : Array Rgba} {picture : Picture} :
    ofPixels size pixels = .ok picture ↔
      picture.width = size.x ∧ picture.height = size.y ∧ pixels = picture.pixels := by
  unfold ofPixels
  constructor
  · intro h
    split at h
    next =>
      cases h
      exact ⟨rfl, rfl, rfl⟩
    next => cases h
  · intro h
    obtain ⟨hwidth, hheight, rfl⟩ := h
    have hsize : picture.pixels.size = size.x * size.y := by
      rw [picture.size_pixels, hwidth, hheight]
    rw [dif_pos hsize, Except.ok.injEq]
    exact Picture.ext hwidth.symm hheight.symm rfl

/-- There have to be as many pixels as the picture has places. -/
theorem Picture.exists_ofPixels_iff {size : Point} {pixels : Array Rgba} :
    (∃ picture, ofPixels size pixels = .ok picture) ↔ pixels.size = size.x * size.y := by
  unfold ofPixels
  split
  next h => exact iff_of_true ⟨_, rfl⟩ h
  next h =>
    refine iff_of_false (fun h' => ?_) h
    obtain ⟨_, h'⟩ := h'
    cases h'

/-- The canvas has the size of the layout, is white behind its blocks and has no source image
yet. -/
structure Layout.IsSheet (l : Layout) (c : Canvas) : Prop where
  size_eq : c.size = l.size
  background_eq : c.background = .white
  source_eq : c.source = none

namespace Canvas

variable {c d : Canvas} {l : Layout}

/-- The source image has to be as large as the canvas. -/
theorem exists_setSource_iff {picture : Picture} : (∃ d, c.setSource picture = .ok d) ↔
    picture.width = c.size.x ∧ picture.height = c.size.y := by
  unfold setSource
  split
  next h => exact iff_of_true ⟨_, rfl⟩ h
  next h =>
    refine iff_of_false (fun h' => ?_) h
    obtain ⟨_, h'⟩ := h'
    cases h'

/-- Setting the source image changes nothing else. -/
theorem of_setSource {picture : Picture} (h : c.setSource picture = .ok d) :
    d.size = c.size ∧ d.background = c.background ∧ d.source = some picture ∧
      d.blocks = c.blocks := by
  unfold setSource at h
  split at h
  · cases h
    exact ⟨rfl, rfl, rfl, rfl⟩
  · cases h

/-- A bare canvas has its size and its background only. -/
theorem isSheet_of_bare (h : bare l.size .white = .ok c) : l.IsSheet c ∧ c.blocks = ∅ := by
  obtain ⟨d, hd, hsize, hbackground, hsource, hblocks⟩ := exists_bare (of_bare h).1 .white
  rw [h] at hd
  cases hd
  exact ⟨⟨hsize, hbackground, hsource⟩, hblocks⟩

theorem isSheet_of_blank (h : blank l.size .white = .ok c) : l.IsSheet c := by
  obtain ⟨b, hb, hinsert⟩ := bind_eq_ok_iff.1 h
  obtain ⟨hsheet, -⟩ := isSheet_of_bare hb
  have hr := rearranged_insert hinsert
  exact ⟨hr.size.trans hsheet.size_eq, hr.background.trans hsheet.background_eq,
    hr.source.trans hsheet.source_eq⟩

/-- The source image adds no block. -/
theorem blocks_ofSource (h : c.ofSource l = .ok d) : d.blocks = c.blocks := by
  unfold ofSource at h
  split at h
  next =>
    obtain ⟨picture, -, hd⟩ := bind_eq_ok_iff.1 h
    exact blocks_setSource hd
  next =>
    split at h
    · cases h
    · cases h
      rfl

/-- The source image can be set just if the pixels are as many as are needed, or neither given
nor needed. -/
theorem exists_ofSource_iff (h : l.IsSheet c) : (∃ d, c.ofSource l = .ok d) ↔ l.Grounded := by
  have hx : 0 < l.size.x := h.size_eq ▸ c.width_pos
  have hy : 0 < l.size.y := h.size_eq ▸ c.height_pos
  unfold ofSource
  cases hpixels : l.sourcePixels with
  | some pixels =>
    simp only [bind_eq_ok_iff]
    constructor
    · intro h'
      obtain ⟨d, picture, hpicture, -⟩ := h'
      refine ⟨hx, hy, fun given hgiven => ?_, fun _ => by simp [hpixels]⟩
      obtain rfl := Option.some.inj (hpixels.symm.trans hgiven)
      exact Picture.exists_ofPixels_iff.1 ⟨picture, hpicture⟩
    · intro h'
      obtain ⟨picture, hpicture⟩ := Picture.exists_ofPixels_iff.2 (h'.pixels_size pixels hpixels)
      obtain ⟨hwidth, hheight, -⟩ := Picture.ofPixels_eq_ok_iff.1 hpicture
      rw [← h.size_eq] at hwidth hheight
      obtain ⟨d, hd⟩ := exists_setSource_iff.2 ⟨hwidth, hheight⟩
      exact ⟨d, picture, hpicture, hd⟩
  | none =>
    dsimp only
    split
    next hany =>
      refine iff_of_false nofun fun h' => ?_
      simp only [List.any_eq_true, decide_eq_true_eq] at hany
      obtain ⟨p, hp, hcolour, hanchor⟩ := hany
      exact h'.pixels_given ⟨p, hp, hcolour, Option.isSome_iff_ne_none.1 hanchor⟩ hpixels
    next hany =>
      refine iff_of_true ⟨c, rfl⟩ ⟨hx, hy, fun pixels h' => ?_, fun h' => ?_⟩
      · rw [hpixels] at h'
        cases h'
      · obtain ⟨p, hp, hcolour, hanchor⟩ := h'
        refine absurd ?_ hany
        simp only [List.any_eq_true, decide_eq_true_eq]
        exact ⟨p, hp, hcolour, Option.isSome_iff_ne_none.2 hanchor⟩

/-- With the source image a sheet is what lies under the blocks of the layout. -/
theorem underlies_of_ofSource (h : l.IsSheet c) (hd : c.ofSource l = .ok d) : l.Underlies d := by
  unfold ofSource at hd
  split at hd
  next pixels hpixels =>
    obtain ⟨picture, hpicture, hset⟩ := bind_eq_ok_iff.1 hd
    obtain ⟨hsize, hbackground, hsource, -⟩ := of_setSource hset
    refine ⟨hsize.trans h.size_eq, hbackground.trans h.background_eq, fun other => ?_⟩
    rw [hsource, hpixels, Option.some.injEq, Option.some.injEq, ← Picture.ofPixels_eq_ok_iff,
      hpicture, Except.ok.injEq]
  next hpixels =>
    split at hd
    next => cases hd
    next =>
      cases hd
      refine ⟨h.size_eq, h.background_eq, fun picture => ?_⟩
      simp [h.source_eq, hpixels]

/-! ## The whole layout -/

/-- Without presets the canvas begins with one white block. -/
theorem ofLayout_of_nil (h : l.presets = []) :
    ofLayout l = blank l.size .white >>= fun c => c.ofSource l := by
  unfold ofLayout
  rw [h]

/-- With presets the canvas begins empty, and they are put on it one by one. -/
theorem ofLayout_of_ne_nil (h : l.presets ≠ []) : ofLayout l =
    (bare l.size .white >>= fun c => c.ofSource l) >>= l.presets.foldlM addPreset := by
  unfold ofLayout
  rw [bind_assoc]
  cases hpresets : l.presets with
  | nil => exact absurd hpresets h
  | cons => rfl

/-- Whatever canvas a layout of some size begins with, it can have the source image just if the
layout is grounded. -/
theorem exists_bind_ofSource_iff {x : Except Error Canvas}
    (hx : l.size.Positive → ∃ c, x = .ok c) (hsheet : ∀ c, x = .ok c → l.IsSheet c) :
    (∃ d, (x >>= fun c => c.ofSource l) = .ok d) ↔ l.Grounded := by
  simp only [bind_eq_ok_iff]
  constructor
  · intro h
    obtain ⟨d, c, hc, hd⟩ := h
    exact (exists_ofSource_iff (hsheet c hc)).1 ⟨d, hd⟩
  · intro h
    obtain ⟨c, hc⟩ := hx ⟨h.width_pos, h.height_pos⟩
    obtain ⟨d, hd⟩ := (exists_ofSource_iff (hsheet c hc)).2 h
    exact ⟨d, c, hc, hd⟩

/-- A bare canvas can have the source image just if the layout is grounded. -/
theorem exists_sheet_iff :
    (∃ d, (bare l.size .white >>= fun c => c.ofSource l) = .ok d) ↔ l.Grounded := by
  refine exists_bind_ofSource_iff (fun h => ?_) fun c hc => (isSheet_of_bare hc).1
  obtain ⟨c, hc, -⟩ := exists_bare h .white
  exact ⟨c, hc⟩

theorem of_sheet (h : (bare l.size .white >>= fun c => c.ofSource l) = .ok d) :
    l.Underlies d ∧ d.blocks = ∅ := by
  obtain ⟨c, hc, hd⟩ := bind_eq_ok_iff.1 h
  obtain ⟨hsheet, hblocks⟩ := isSheet_of_bare hc
  exact ⟨underlies_of_ofSource hsheet hd, (blocks_ofSource hd).trans hblocks⟩

theorem exists_ofLayout_of_nil (h : l.presets = []) :
    (∃ c, ofLayout l = .ok c) ↔ l.Grounded := by
  rw [ofLayout_of_nil h]
  refine exists_bind_ofSource_iff (fun h => ?_) fun c hc => isSheet_of_blank hc
  obtain ⟨c, hc, -⟩ := exists_blank h .white
  exact ⟨c, hc⟩

/-- Just the valid layouts give a canvas. -/
theorem exists_ofLayout_iff : (∃ c, ofLayout l = .ok c) ↔ l.Valid := by
  by_cases hnil : l.presets = []
  · rw [exists_ofLayout_of_nil hnil]
    constructor
    · intro h
      refine ⟨h, ?_, ?_⟩
      · rw [hnil]
        exact List.nodup_nil
      · rw [hnil]
        exact nofun
    · intro h
      exact h.toGrounded
  · rw [ofLayout_of_ne_nil hnil]
    have hpresets : ∀ d, (bare l.size .white >>= fun c => c.ofSource l) = .ok d →
        ((∃ c, l.presets.foldlM addPreset d = .ok c) ↔
          (l.presets.map (·.id)).Nodup ∧ ∀ p ∈ l.presets, p.FitsOn l.size) := by
      intro d hd
      obtain ⟨hunder, hblocks⟩ := of_sheet hd
      rw [exists_foldlM_addPreset_iff, hunder.size_eq, ids, hblocks]
      rfl
    constructor
    · intro h
      obtain ⟨c, hc⟩ := h
      obtain ⟨d, hd, hc⟩ := bind_eq_ok_iff.1 hc
      obtain ⟨hnodup, hfits⟩ := (hpresets d hd).1 ⟨c, hc⟩
      exact ⟨exists_sheet_iff.1 ⟨d, hd⟩, hnodup, hfits⟩
    · intro h
      obtain ⟨d, hd⟩ := exists_sheet_iff.2 h.toGrounded
      obtain ⟨c, hc⟩ := (hpresets d hd).2 ⟨h.ids_nodup, h.fitsOn⟩
      exact ⟨c, bind_eq_ok_iff.2 ⟨d, hd, hc⟩⟩

/-- On the canvas of a layout is what the layout says. -/
theorem describes_of_ofLayout (h : ofLayout l = .ok c) : l.Describes c := by
  by_cases hnil : l.presets = []
  · rw [ofLayout_of_nil hnil] at h
    obtain ⟨b, hb, hc⟩ := bind_eq_ok_iff.1 h
    have hunder := underlies_of_ofSource (isSheet_of_blank hb) hc
    refine ⟨hunder, absurd hnil, fun _ => ?_⟩
    obtain ⟨hsize, hentries⟩ := of_blank hb
    have hbounds : c.bounds = b.bounds := by
      simp only [bounds, hunder.size_eq, hsize]
    rw [blocks_ofSource hc, hentries, hbounds]
  · rw [ofLayout_of_ne_nil hnil] at h
    obtain ⟨d, hd, hc⟩ := bind_eq_ok_iff.1 h
    obtain ⟨hunder, hblocks⟩ := of_sheet hd
    obtain ⟨hr, news, hentries, hnews⟩ := of_foldlM_addPreset hc
    rw [hblocks] at hentries
    refine ⟨⟨hr.size.trans hunder.size_eq, hr.background.trans hunder.background_eq, ?_⟩,
      fun _ => ?_, fun h => absurd h hnil⟩
    · rw [hr.source]
      exact hunder.source_iff
    · rw [hentries]
      exact hnews

/-- A grounded layout is refused for its first preset that cannot be put down. -/
theorem ofLayout_eq_error_iff (h : l.Grounded) {e : Error} : ofLayout l = .error e ↔
    ∃ before p after, l.presets = before ++ p :: after ∧ (before.map (·.id)).Nodup ∧
      (∀ q ∈ before, q.FitsOn l.size) ∧ p.RefusedFor l.size (before.map (·.id)) e := by
  by_cases hnil : l.presets = []
  · obtain ⟨c, hc⟩ := (exists_ofLayout_of_nil hnil).2 h
    rw [hc, hnil]
    simp
  · obtain ⟨d, hd⟩ := exists_sheet_iff.2 h
    obtain ⟨hunder, hblocks⟩ := of_sheet hd
    have hids : d.ids = [] := by
      rw [ids, hblocks]
      rfl
    have hfold : ofLayout l = l.presets.foldlM addPreset d := by
      rw [ofLayout_of_ne_nil hnil, hd]
      rfl
    rw [hfold, foldlM_addPreset_eq_error_iff, hunder.size_eq, hids]
    rfl

end Canvas

/-- Just the valid layouts give a canvas, and it is what they say. Where the size and the pixels
are in order, a layout is refused for the first preset that cannot be put down: the presets
before have different names and fit, and what is amiss with this one is looked for in its name
among theirs, in its fill, in its corners and in its place, and told in this order. -/
theorem layout_describes_canvas (l : Layout) :
    ((∃ c, Canvas.ofLayout l = .ok c) ↔ l.Valid) ∧
      (∀ c, Canvas.ofLayout l = .ok c → l.Describes c) ∧
      (l.Grounded → ∀ e, Canvas.ofLayout l = .error e ↔
        ∃ before p after, l.presets = before ++ p :: after ∧ (before.map (·.id)).Nodup ∧
          (∀ q ∈ before, q.FitsOn l.size) ∧ p.RefusedFor l.size (before.map (·.id)) e) :=
  ⟨Canvas.exists_ofLayout_iff, fun _ h => Canvas.describes_of_ofLayout h,
    fun h _ => Canvas.ofLayout_eq_error_iff h⟩

/-- The third preset has everything amiss, and it is refused for its name. -/
theorem layout_describes_canvas_of_repeated_name :
    let l : Layout :=
      { size := .ofCoordinates 4 4
        presets :=
          [{ id := "a", bottomLeft := .origin, topRight := .ofCoordinates 2 4,
             colour := some .white },
           { id := "b", bottomLeft := .ofCoordinates 2 0, topRight := .ofCoordinates 4 4,
             anchor := some .origin },
           { id := "a", bottomLeft := .ofCoordinates 3 3, topRight := .ofCoordinates 9 1 }]
        sourcePixels := some (Array.replicate 16 .white) }
    l.Grounded ∧ Canvas.ofLayout l = .error (.duplicatePreset "a") := by
  intro l
  have hgrounded : l.Grounded := by
    refine ⟨by decide, by decide, fun pixels h => ?_, fun _ => nofun⟩
    cases h
    exact Array.size_replicate
  refine ⟨hgrounded, ((layout_describes_canvas l).2.2 hgrounded _).2 ?_⟩
  refine ⟨l.presets.take 2, _, [], rfl, by decide, ?_, .duplicate (by decide)⟩
  intro q hq
  rcases List.mem_cons.1 hq with rfl | hq
  · exact ⟨.inl nofun, by decide, by decide, by decide, by decide⟩
  · rw [List.mem_singleton.1 hq]
    exact ⟨.inr nofun, by decide, by decide, by decide, by decide⟩

end Easel
