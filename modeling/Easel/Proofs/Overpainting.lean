import Easel.Proofs.Painting

/-!
# Painting over what is there

A pixel of a frame is the colour of the last span over it, and the rows of a frame are
joined from the top. One can as well begin with an empty sheet, take the rows in any order
and paint the spans of a row one over another. Each pixel of the sheet then keeps its last
stroke (`getElem?_overpaint`), and all its strokes are made in its own row by the spans
that cover it (`filterMap_at?_strokes`).

Main statement: `draw_last_leaf_wins`, which canvases are drawn, what their pixels show,
that rows can be painted in any order, and how the drawing of the others ends.
-/

namespace Easel

/-- One pixel of a sheet gets a colour. -/
structure Stroke where
  index : Nat
  colour : Rgba

/-- What a stroke gives to a pixel. -/
def Stroke.at? (s : Stroke) (index : Nat) : Option Rgba :=
  if s.index = index then some s.colour else none

/-- The strokes of a span in a row, from the left. A span that reaches beyond the right edge
makes none. -/
def Span.strokes (s : Span) (width row : Nat) : List Stroke :=
  if s.MeetsRow row ∧ s.right ≤ width then
    (List.range' s.left (s.right - s.left)).filterMap fun column =>
      (s.colour? column row).map (Stroke.mk (row * width + column))
  else []

/-- The sheet after strokes, one after another. -/
def overpaint (sheet : Array Rgba) (strokes : List Stroke) : Array Rgba :=
  strokes.foldl (fun sheet s => sheet.setIfInBounds s.index s.colour) sheet

/-- The last stroke stays. -/
theorem getElem?_overpaint (sheet : Array Rgba) (strokes : List Stroke) (k : Nat) :
    (overpaint sheet strokes)[k]?
      = sheet[k]?.map fun old => (strokes.filterMap (·.at? k)).getLast?.getD old := by
  induction strokes generalizing sheet with
  | nil => simp [overpaint]
  | cons s strokes ih =>
    have hstep : overpaint sheet (s :: strokes)
        = overpaint (sheet.setIfInBounds s.index s.colour) strokes := rfl
    rw [hstep, ih]
    by_cases hk : s.index = k
    · subst hk
      rw [List.filterMap_cons_some (b := s.colour) (by simp [Stroke.at?]), List.getLast?_cons]
      by_cases hlt : s.index < sheet.size
      · rw [Array.getElem?_setIfInBounds_self_of_lt hlt, Array.getElem?_eq_getElem hlt]
        rfl
      · rw [Array.getElem?_eq_none (by simpa using hlt), Array.getElem?_eq_none (by omega)]
        rfl
    · rw [List.filterMap_cons_none (by simp [Stroke.at?, hk]), Array.getElem?_setIfInBounds_ne hk]

/-- Only one element of a list adds something. -/
theorem flatMap_ite_eq {α β : Type} [DecidableEq α] {as : List α} (h : as.Nodup) (a : α)
    (bs : List β) :
    as.flatMap (fun a' => if a' = a then bs else []) = if a ∈ as then bs else [] := by
  induction as with
  | nil => simp
  | cons b as ih =>
    rw [List.nodup_cons] at h
    rw [List.flatMap_cons, ih h.2]
    by_cases hb : b = a
    · subst hb
      simp [h.1]
    · have hb' : ¬ a = b := fun h => hb h.symm
      simp [hb, hb']

/-- A place in a sheet tells the row and the column. -/
theorem index_inj {width row row' column column' : Nat} (hcolumn : column < width)
    (hcolumn' : column' < width) (h : row' * width + column' = row * width + column) :
    row' = row ∧ column' = column := by
  have hrow {r k : Nat} (hk : k < width) : (r * width + k) / width = r := by
    rw [Nat.mul_comm, Nat.mul_add_div (by omega), Nat.div_eq_of_lt hk, Nat.add_zero]
  have heq : row' = row := by
    calc row' = (row' * width + column') / width := (hrow hcolumn').symm
      _ = (row * width + column) / width := by rw [h]
      _ = row := hrow hcolumn
  subst heq
  exact ⟨rfl, Nat.add_left_cancel h⟩

/-- A stroke is seen at its own pixel and at no other. -/
theorem Span.bind_at?_stroke (s : Span) {width row row' column column' : Nat}
    (hcolumn : column < width) (hcolumn' : column' < width) :
    ((s.colour? column' row').map (Stroke.mk (row' * width + column'))).bind
        (Stroke.at? · (row * width + column))
      = if row' = row ∧ column' = column then s.colour? column row else none := by
  by_cases hpixel : row' = row ∧ column' = column
  · obtain ⟨rfl, rfl⟩ := hpixel
    cases s.colour? column' row' <;> simp [Stroke.at?]
  · have hne : ¬ row' * width + column' = row * width + column := fun h =>
      hpixel (index_inj hcolumn hcolumn' h)
    cases s.colour? column' row' <;> simp [Stroke.at?, hne, hpixel]

/-- All strokes of a span on a pixel are made in its row. -/
theorem Span.filterMap_at?_strokes (s : Span) {width column : Nat} (hcolumn : column < width)
    (row row' : Nat) :
    (s.strokes width row').filterMap (·.at? (row * width + column))
      = if row' = row then (s.at? width column row).toList else [] := by
  unfold strokes
  split
  next hmeets =>
    rw [List.filterMap_filterMap]
    have hwidth : ∀ k ∈ List.range' s.left (s.right - s.left), k < width := by
      intro k hk
      rw [List.mem_range'_1] at hk
      omega
    rw [List.filterMap_congr fun k hk => s.bind_at?_stroke hcolumn (hwidth k hk)]
    split
    next hrow =>
      -- the span comes once to each of its columns
      have hcolumns : s.MeetsColumn column ↔ column ∈ List.range' s.left (s.right - s.left) := by
        rw [List.mem_range'_1]
        unfold MeetsColumn
        omega
      have htoList (k : Nat) :
          (if row' = row ∧ k = column then s.colour? column row else none).toList
            = if k = column then (s.colour? column row).toList else [] := by
        by_cases hk : k = column <;> simp [hrow, hk]
      rw [List.filterMap_eq_flatMap_toList]
      simp only [htoList]
      rw [flatMap_ite_eq List.nodup_range']
      subst hrow
      unfold Span.at?
      simp only [hmeets, true_and, hcolumns]
      split <;> rfl
    next hrow => simp [hrow]
  next hmeets =>
    split
    next hrow =>
      subst hrow
      unfold Span.at?
      rw [if_neg fun h => hmeets h.1]
      rfl
    next => rfl

namespace Canvas

/-- The pixels of a sheet whose rows are painted in the given order. -/
def paintInOrder (spans : List Span) (width height : Nat) (rows : List Nat) : Array Rgba :=
  overpaint (Array.replicate (width * height) .transparent)
    (rows.flatMap fun row => spans.flatMap (·.strokes width row))

/-- In each order every row is painted once, and gets what it gets from the top. -/
theorem paintInOrder_eq (spans : List Span) {width height : Nat} {rows : List Nat}
    (hrows : rows.Perm (List.range height)) :
    paintInOrder spans width height rows = paintRows spans width height := by
  refine Array.ext_getElem? fun k => ?_
  unfold paintInOrder
  rw [getElem?_overpaint]
  by_cases hk : k < width * height
  · obtain ⟨row, column, hrow, hcolumn, rfl⟩ := exists_row_column hk
    have hstrokes : (rows.flatMap fun row' => spans.flatMap (·.strokes width row')).filterMap
        (·.at? (row * width + column)) = spans.filterMap (·.at? width column row) := by
      have hmem : row ∈ rows := hrows.mem_iff.2 (List.mem_range.2 hrow)
      have hrow' (row' : Nat) : (spans.flatMap (·.strokes width row')).filterMap
          (·.at? (row * width + column))
            = if row' = row then spans.filterMap (·.at? width column row) else [] := by
        rw [List.filterMap_flatMap]
        simp only [Span.filterMap_at?_strokes _ hcolumn]
        split
        · exact (List.filterMap_eq_flatMap_toList _ _).symm
        · exact List.flatMap_eq_nil_iff.2 fun _ _ => rfl
      rw [List.filterMap_flatMap]
      simp only [hrow']
      rw [flatMap_ite_eq (hrows.nodup_iff.2 List.nodup_range), if_pos hmem]
    rw [Array.getElem?_replicate, if_pos hk, hstrokes, getElem?_paintRows hcolumn hrow,
      getElem?_paintRow hcolumn]
    rfl
  · have hsize := size_paintRows spans width height
    rw [Array.getElem?_eq_none (by rw [Array.size_replicate]; omega),
      Array.getElem?_eq_none (by omega)]
    rfl

variable {c : Canvas} {threading : Threading}

/-- A canvas whose leaves lie inside is drawn just if its frame can be held and every image
leaf has its window in the source image. A pixel is then transparent where no leaf covers
its cell, and otherwise what the last leaf there shows, a colour in any case; in which order
the rows are painted makes no difference. Otherwise an image leaf without its window is
reported whatever the size of the frame, and only where there is none is a frame that cannot
be held an overflow. -/
theorem draw_last_leaf_wins (hin : ∀ leaf ∈ c.leaves, c.bounds.Contains leaf.rect)
    (hthreads : ¬ (threading.parallel ∧ threading.threads = some 0)) :
    ((∃ f, c.draw threading = .ok f) ↔
      Frame.Fits c.size ∧ ∀ leaf ∈ c.leaves, leaf.Readable c.source) ∧
    (∀ f, c.draw threading = .ok f → f.width = c.width ∧ f.height = c.height ∧
      (∀ x row, x < c.width → row < c.height →
        let y := c.height - 1 - row
        ∃ colour, f.pixel? x row = some colour ∧
          match (c.leaves.filter (·.rect.Covers x y)).getLast? with
          | none => colour = .transparent
          | some leaf => leaf.colourAt? c.source x y = some colour) ∧
      ∃ spans, c.leaves.mapM (·.span c) = .ok spans ∧
        ∀ rows, rows.Perm (List.range c.height) →
          paintInOrder spans c.width c.height rows = f.pixels) ∧
    (¬ Frame.Fits c.size → (∀ leaf ∈ c.leaves, leaf.Readable c.source) →
      c.draw threading = .error (.overflow .capacity)) ∧
    ∀ leaf ∈ c.leaves, ¬ leaf.Readable c.source →
      ∃ e : Error, e.category = .validation ∧ c.draw threading = .error (.refused e) := by
  refine ⟨exists_draw_iff hin hthreads, fun f hf => ?_,
    fun hfits hreadable => draw_of_not_fits hin hreadable hfits,
    fun leaf hleaf hunreadable => draw_of_not_readable hin hleaf hunreadable⟩
  obtain ⟨spans, hspans, -, -, hwidth, hheight, hpixels⟩ := draw_eq_ok_iff.1 hf
  have hreadable := ((exists_draw_iff hin hthreads).1 ⟨f, hf⟩).2
  refine ⟨hwidth, hheight, fun x row hx hrow => ⟨_, pixel?_of_draw hin hf hx hrow, ?_⟩,
    spans, hspans, fun rows hrows => (paintInOrder_eq spans hrows).trans hpixels.symm⟩
  split
  next hnone =>
    rw [List.getLast?_eq_none_iff.1 hnone]
    rfl
  next leaf hlast =>
    obtain ⟨below, hleaves⟩ := List.getLast?_eq_some_iff.1 hlast
    have hleaf : leaf ∈ c.leaves.filter (·.rect.Covers x (c.height - 1 - row)) := by
      rw [hleaves]
      exact List.mem_append_right _ (List.mem_singleton_self leaf)
    obtain ⟨hl, hcovers⟩ := List.mem_filter.1 hleaf
    obtain ⟨colour, hcolour⟩ :=
      (hreadable leaf hl).exists_colourAt? (of_decide_eq_true hcovers)
    have hone : [leaf].filterMap (·.colourAt? c.source x (c.height - 1 - row)) = [colour] := by
      simp only [List.filterMap_cons, hcolour, List.filterMap_nil]
    rw [hleaves, List.filterMap_append, hcolour, hone, List.getLast?_append]
    rfl

/-- The lower row is white, the right column shows the source image over it, and the upper
left cell is free. -/
theorem draw_last_leaf_wins_over_gap :
    let layout : Layout :=
      { size := .ofCoordinates 2 2
        presets :=
          [{ id := "low", bottomLeft := .origin, topRight := .ofCoordinates 2 1,
             colour := some .white },
           { id := "right", bottomLeft := .ofCoordinates 1 0, topRight := .ofCoordinates 2 2,
             anchor := some .origin }]
        sourcePixels := some #[⟨1, 1, 1, 1⟩, ⟨2, 2, 2, 2⟩, ⟨3, 3, 3, 3⟩, ⟨4, 4, 4, 4⟩] }
    ∃ c f, ofLayout layout = .ok c ∧ (∀ leaf ∈ c.leaves, c.bounds.Contains leaf.rect) ∧
      c.draw { parallel := true, threads := some 3 } = .ok f ∧
        f.pixel? 0 0 = some .transparent ∧ f.pixel? 0 1 = some .white ∧
          f.pixel? 1 1 = some ⟨3, 3, 3, 3⟩ := by
  intro layout
  obtain ⟨c, hc⟩ : ∃ c, ofLayout layout = .ok c := ⟨_, rfl⟩
  have hin : ∀ leaf ∈ c.leaves, c.bounds.Contains leaf.rect := by
    cases hc
    decide +kernel
  obtain ⟨f, hf⟩ : ∃ f, c.draw { parallel := true, threads := some 3 } = .ok f := by
    cases hc
    exact ⟨_, rfl⟩
  obtain ⟨-, -, hpixel, -⟩ := (draw_last_leaf_wins hin (by decide)).2.1 f hf
  have hsize : c.width = 2 ∧ c.height = 2 := by
    cases hc
    exact ⟨rfl, rfl⟩
  obtain ⟨gap, hgap, hgap'⟩ := hpixel 0 0 (by omega) (by omega)
  obtain ⟨low, hlow, hlow'⟩ := hpixel 0 1 (by omega) (by omega)
  obtain ⟨right, hright, hright'⟩ := hpixel 1 1 (by omega) (by omega)
  refine ⟨c, f, hc, hin, hf, hgap.trans ?_, hlow.trans ?_, hright.trans ?_⟩
  · cases hc
    exact congrArg some hgap'
  · cases hc
    exact hlow'.symm
  · cases hc
    exact hright'.symm

/-- Leaves that lie inside and need no source image are not enough: this frame would take
just `2 ^ 63` bytes. -/
theorem not_drawn_of_two_pow_bytes : ∃ c,
    Canvas.blank (.ofCoordinates 2147483648 1073741824) .white = .ok c ∧
      (∀ leaf ∈ c.leaves, c.bounds.Contains leaf.rect) ∧
        (∀ leaf ∈ c.leaves, leaf.Readable c.source) ∧
          c.draw {} = .error (.overflow .capacity) ∧ ¬ ∃ f, c.draw {} = .ok f := by
  obtain ⟨c, hc⟩ : ∃ c, Canvas.blank (.ofCoordinates 2147483648 1073741824) .white = .ok c :=
    ⟨_, rfl⟩
  have hin : ∀ leaf ∈ c.leaves, c.bounds.Contains leaf.rect := by
    cases hc
    decide
  have hsolid : ∀ leaf ∈ c.leaves, ∃ colour, leaf.fill = .solid colour := by
    cases hc
    intro leaf hl
    rw [List.mem_singleton.1 hl]
    exact ⟨_, rfl⟩
  have hfits : ¬ Frame.Fits c.size := by
    cases hc
    decide
  have hreadable := readable_of_solid hsolid c.source
  have hdraw : c.draw {} = .error (.overflow .capacity) := draw_of_not_fits hin hreadable hfits
  refine ⟨c, hc, hin, hreadable, hdraw, fun h => ?_⟩
  obtain ⟨f, hf⟩ := h
  cases hdraw.symm.trans hf

end Canvas

end Easel
