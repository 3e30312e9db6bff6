import Easel.Proofs.Outcome
import Easel.Raster

/-!
# What a drawn pixel shows

A frame is painted row by row from spans, and rows count from the top. Here the
frame is read back cell by cell: pixel `(column, row)` is the cell `column` to the
right and `height - 1 - row` up. `pixel?_paintRows` finds the pixel in the rows that
are joined, `at?_span` says that a span gives a colour to just the cells of its
leaf, and `shade_eq` that the last span which gives one wins.

What a leaf shows in a cell is `Leaf.colourAt?`, be it a plain colour or a pixel of the
source image, and `Leaf.Readable` says that the source image reaches so far.

Main statements: `exists_draw_iff` says which canvases are drawn, and `pixel?_of_draw`
that each pixel shows what the last leaf over the cell shows. For a canvas of plain colours
that is the fill of the leaf (`exists_draw`). A leaf without its part of the source image is
reported (`draw_of_not_readable`) before a frame that cannot be held (`draw_of_not_fits`).
-/

namespace Easel

/-! ## Spans -/

/-- The colour of a fill that is the same everywhere. -/
def Fill.colour? : Fill → Option Rgba
  | solid colour => some colour
  | image _ => none

/-- What a span gives to a pixel of a frame of the given width. -/
def Span.at? (s : Span) (width column row : Nat) : Option Rgba :=
  if (s.MeetsRow row ∧ s.right ≤ width) ∧ s.MeetsColumn column then s.colour? column row else none

theorem Leaf.span_eq_ok_iff {leaf : Leaf} {c : Canvas} {s : Span} :
    leaf.span c = .ok s ↔
      ∃ paint, leaf.paint c = .ok paint ∧ leaf.rect.topRight.y ≤ c.height ∧
        s = { left := leaf.rect.bottomLeft.x
              right := leaf.rect.topRight.x
              top := c.height - leaf.rect.topRight.y
              bottom := c.height - leaf.rect.bottomLeft.y
              paint } := by
  simp only [span, bind_eq_ok_iff, orRefuse_eq_ok_iff]
  refine exists_congr fun paint => and_congr_right fun _ => ?_
  by_cases h : leaf.rect.topRight.y ≤ c.height
  · simp only [h, if_true, pure, Except.pure, Except.ok.injEq, true_and, eq_comm]
  · simp only [h, if_false, false_and, iff_false]
    exact fun h => by cases h

/-- A span gives a colour to the cells of its leaf and to no others. -/
theorem Leaf.at?_span {leaf : Leaf} {c : Canvas} {s : Span} (h : leaf.span c = .ok s)
    (hin : c.bounds.Contains leaf.rect) {column row : Nat} (hrow : row < c.height) :
    s.at? c.width column row =
      if leaf.rect.Covers column (c.height - 1 - row) then s.colour? column row else none := by
  obtain ⟨paint, -, htop, rfl⟩ := span_eq_ok_iff.1 h
  have hright : leaf.rect.topRight.x ≤ c.width := (Rect.contains_iff.1 hin).2.1
  have hy := leaf.rect.y_lt
  unfold Span.at?
  refine if_congr ?_ rfl rfl
  simp only [Span.MeetsRow, Span.MeetsColumn, Rect.Covers]
  omega

/-- The last span that gives a colour to a pixel wins. -/
theorem shade_eq (spans : List Span) (width column row : Nat) :
    Canvas.shade (spans.filter fun s => s.MeetsRow row ∧ s.right ≤ width).reverse column row
      = ((spans.filterMap (·.at? width column row)).getLast?).getD .transparent := by
  unfold Canvas.shade
  rw [← List.getLast?_filterMap, List.filterMap_filter]
  refine congrArg (fun l : List Rgba => l.getLast?.getD .transparent) ?_
  refine List.filterMap_congr fun s _ => ?_
  unfold Span.at?
  by_cases hrow : s.MeetsRow row ∧ s.right ≤ width
  · simp only [hrow, and_self, decide_true, if_true, true_and]
  · simp only [hrow, decide_false, Bool.false_eq_true, if_false, false_and]

/-! ## Rows -/

theorem getElem?_paintRow {spans : List Span} {width column row : Nat} (h : column < width) :
    (Canvas.paintRow spans width row)[column]?
      = some (((spans.filterMap (·.at? width column row)).getLast?).getD .transparent) := by
  unfold Canvas.paintRow
  rw [Array.getElem?_ofFn, dif_pos h, shade_eq]

theorem getElem?_paintRows {spans : List Span} {width rows column row : Nat}
    (hcolumn : column < width) (hrow : row < rows) :
    (Canvas.paintRows spans width rows)[row * width + column]?
      = (Canvas.paintRow spans width row)[column]? := by
  induction rows with
  | zero => omega
  | succ rows ih =>
    rw [Canvas.paintRows_succ]
    have hsize := Canvas.size_paintRows spans width rows
    rcases Nat.lt_or_eq_of_le (Nat.le_of_lt_succ hrow) with hlt | rfl
    · have hle : row * width + column < width * rows := by
        calc row * width + column < row * width + width := by omega
          _ = width * (row + 1) := by rw [Nat.mul_succ, Nat.mul_comm]
          _ ≤ width * rows := Nat.mul_le_mul_left width hlt
      rw [Array.getElem?_append_left (by omega), ih hlt]
    · have hstart : width * row = row * width := Nat.mul_comm _ _
      rw [Array.getElem?_append_right (by omega)]
      congr 1
      omega

/-! ## What a leaf shows -/

theorem Picture.exists_pixel? {p : Picture} {column row : Nat} (hcolumn : column < p.width)
    (hrow : row < p.height) : ∃ colour, p.pixel? column row = some colour := by
  have hlt : row * p.width + column < p.pixels.size := by
    rw [p.size_pixels]
    calc row * p.width + column < row * p.width + p.width := by omega
      _ = p.width * (row + 1) := by rw [Nat.mul_succ, Nat.mul_comm]
      _ ≤ p.width * p.height := Nat.mul_le_mul_left _ hrow
  unfold pixel?
  rw [if_pos ⟨hcolumn, hrow⟩, Array.getElem?_eq_getElem hlt]
  exact ⟨_, rfl⟩

/-- Each place in a list of pixels is that of some row and column. -/
theorem exists_row_column {width height k : Nat} (hk : k < width * height) :
    ∃ row column, row < height ∧ column < width ∧ k = row * width + column := by
  have hpos : 0 < width := Nat.pos_of_mul_pos_right (Nat.zero_lt_of_lt hk)
  refine ⟨k / width, k % width, Nat.div_lt_of_lt_mul hk, Nat.mod_lt k hpos, ?_⟩
  rw [Nat.mul_comm, Nat.div_add_mod]

/-- A picture is what can be seen of it. -/
theorem Picture.ext_pixel? {p q : Picture} (hwidth : p.width = q.width)
    (hheight : p.height = q.height) (hpixel : ∀ column row, column < p.width → row < p.height →
      p.pixel? column row = q.pixel? column row) : p = q := by
  refine Picture.ext hwidth hheight (Array.ext_getElem? fun k => ?_)
  have hp := p.size_pixels
  have hq := q.size_pixels
  rw [← hwidth, ← hheight] at hq
  by_cases hk : k < p.width * p.height
  · obtain ⟨row, column, hrow, hcolumn, rfl⟩ := exists_row_column hk
    have h := hpixel column row hcolumn hrow
    unfold pixel? at h
    rwa [← hwidth, ← hheight, if_pos ⟨hcolumn, hrow⟩, if_pos ⟨hcolumn, hrow⟩] at h
  · rw [Array.getElem?_eq_none (by omega), Array.getElem?_eq_none (by omega)]

namespace Leaf

/-- All that a leaf shows of the source image is there. -/
def Readable (leaf : Leaf) (source : Option Picture) : Prop :=
  ∀ anchor, leaf.fill = .image anchor → ∃ picture, source = some picture ∧
    anchor.x + leaf.rect.size.x ≤ picture.width ∧ anchor.y + leaf.rect.size.y ≤ picture.height

/-- What a leaf shows in a cell. The source image counts its rows from the top. -/
def colourAt? (leaf : Leaf) (source : Option Picture) (x y : Nat) : Option Rgba :=
  match leaf.fill with
  | .solid colour => some colour
  | .image anchor => source.bind fun picture =>
    picture.pixel? (anchor.x + (x - leaf.rect.bottomLeft.x))
      (picture.height - 1 - (anchor.y + (y - leaf.rect.bottomLeft.y)))

variable {leaf : Leaf} {c : Canvas}

theorem readable_of_solid {colour : Rgba} (h : leaf.fill = .solid colour)
    (source : Option Picture) : leaf.Readable source := by
  intro anchor hanchor
  rw [h] at hanchor
  cases hanchor

theorem colourAt?_of_solid {colour : Rgba} (h : leaf.fill = .solid colour)
    (source : Option Picture) (x y : Nat) : leaf.colourAt? source x y = some colour := by
  unfold colourAt?
  rw [h]

/-- A leaf paints its colour, or the window in the source image that begins at its anchor; the
window has to lie in the image. -/
theorem paint_eq_ok_iff {paint : Paint} : leaf.paint c = .ok paint ↔
    (∃ colour, leaf.fill = .solid colour ∧ paint = .solid colour) ∨
      ∃ anchor picture, leaf.fill = .image anchor ∧ c.source = some picture ∧
        (anchor.x + leaf.rect.size.x ≤ picture.width ∧
          anchor.y + leaf.rect.size.y ≤ picture.height) ∧
        paint = .window picture anchor.x (picture.height - (anchor.y + leaf.rect.size.y)) := by
  unfold Leaf.paint
  cases leaf.fill with
  | solid colour => simp [eq_comm]
  | image anchor =>
    cases c.source with
    | none => simp
    | some picture =>
      by_cases h : anchor.x + leaf.rect.size.x ≤ picture.width ∧
          anchor.y + leaf.rect.size.y ≤ picture.height
      · simp [h, eq_comm]
      · simp [h]

theorem exists_paint_iff : (∃ paint, leaf.paint c = .ok paint) ↔ leaf.Readable c.source := by
  simp only [paint_eq_ok_iff]
  constructor
  · intro h anchor hanchor
    obtain ⟨paint, ⟨colour, hfill, -⟩ | ⟨anchor', picture, hfill, hsource, hfits, -⟩⟩ := h
    · cases hanchor.symm.trans hfill
    · cases hanchor.symm.trans hfill
      exact ⟨picture, hsource, hfits⟩
  · intro h
    cases hfill : leaf.fill with
    | solid colour => exact ⟨_, .inl ⟨colour, rfl, rfl⟩⟩
    | image anchor =>
      obtain ⟨picture, hsource, hfits⟩ := h anchor hfill
      exact ⟨_, .inr ⟨anchor, picture, rfl, hsource, hfits, rfl⟩⟩

/-- Nothing that the leaf shows is missing, and no part of it is above the canvas. -/
def Paintable (leaf : Leaf) (c : Canvas) : Prop :=
  leaf.Readable c.source ∧ leaf.rect.topRight.y ≤ c.height

theorem exists_span_iff_paintable : (∃ s, leaf.span c = .ok s) ↔ leaf.Paintable c := by
  unfold Paintable
  rw [← exists_paint_iff]
  constructor
  · intro h
    obtain ⟨s, hs⟩ := h
    obtain ⟨paint, hpaint, htop, -⟩ := span_eq_ok_iff.1 hs
    exact ⟨⟨paint, hpaint⟩, htop⟩
  · intro h
    obtain ⟨⟨paint, hpaint⟩, htop⟩ := h
    exact ⟨_, span_eq_ok_iff.2 ⟨paint, hpaint, htop, rfl⟩⟩

theorem exists_span_iff (hin : c.bounds.Contains leaf.rect) :
    (∃ s, leaf.span c = .ok s) ↔ leaf.Readable c.source := by
  rw [exists_span_iff_paintable]
  exact and_iff_left (Canvas.contains_bounds_iff.1 hin).2

/-- What keeps a leaf from being painted is missing or outside of the source image. -/
theorem category_of_paint_eq_error {e : Error} (h : leaf.paint c = .error e) :
    e.category = .validation := by
  unfold paint at h
  cases hfill : leaf.fill with
  | solid colour =>
    rw [hfill] at h
    cases h
  | image anchor =>
    cases hsource : c.source with
    | none =>
      simp only [hfill, hsource] at h
      cases h
      rfl
    | some picture =>
      simp only [hfill, hsource] at h
      split at h
      next => cases h
      next =>
        cases h
        rfl

/-- A leaf that lies inside has a span, or it is refused for what it shows. -/
theorem exists_of_span_eq_error (hin : c.bounds.Contains leaf.rect) {failure : Failure}
    (h : leaf.span c = .error failure) :
    ∃ e : Error, e.category = .validation ∧ failure = .refused e := by
  cases hpaint : leaf.paint c with
  | ok paint =>
    obtain ⟨s, hs⟩ := (exists_span_iff hin).2 (exists_paint_iff.1 ⟨paint, hpaint⟩)
    cases hs.symm.trans h
  | error e =>
    unfold span at h
    rw [hpaint] at h
    cases h
    exact ⟨e, category_of_paint_eq_error hpaint, rfl⟩

/-- A readable leaf shows some colour in each of its cells. -/
theorem Readable.exists_colourAt? {source : Option Picture} (h : leaf.Readable source) {x y : Nat}
    (hc : leaf.rect.Covers x y) : ∃ colour, leaf.colourAt? source x y = some colour := by
  unfold colourAt?
  cases hfill : leaf.fill with
  | solid colour => exact ⟨colour, rfl⟩
  | image anchor =>
    obtain ⟨picture, rfl, hx, hy⟩ := h anchor hfill
    simp only [Rect.size, Point.diff, Rect.Covers] at hx hy hc
    exact Picture.exists_pixel? (by omega) (by omega)

/-- A span paints what its leaf shows. Both the canvas and the source image are turned
upside down on the way, so the rows agree again. -/
theorem colour?_span {s : Span} (h : leaf.span c = .ok s) {column row : Nat}
    (hrow : row < c.height) (hc : leaf.rect.Covers column (c.height - 1 - row)) :
    s.colour? column row = leaf.colourAt? c.source column (c.height - 1 - row) := by
  obtain ⟨paint, hpaint, htop, rfl⟩ := span_eq_ok_iff.1 h
  unfold colourAt?
  obtain ⟨colour, hfill, rfl⟩ | ⟨anchor, picture, hfill, hsource, hfits, rfl⟩ :=
    paint_eq_ok_iff.1 hpaint
  · rw [hfill]
    rfl
  · rw [hfill, hsource]
    simp only [Rect.size, Point.diff, Rect.Covers] at hfits hc
    refine congrArg (picture.pixel? _) ?_
    simp only [Rect.size, Point.diff]
    omega

end Leaf

/-! ## Frames -/

/-- The spans of leaves give a pixel what the leaves over its cell show. -/
theorem filterMap_at?_spans {c : Canvas} {leaves : List Leaf} {spans : List Span}
    (h : leaves.mapM (·.span c) = .ok spans)
    (hin : ∀ leaf ∈ leaves, c.bounds.Contains leaf.rect) {column row : Nat}
    (hrow : row < c.height) :
    spans.filterMap (·.at? c.width column row)
      = (leaves.filter (·.rect.Covers column (c.height - 1 - row))).filterMap
          (·.colourAt? c.source column (c.height - 1 - row)) := by
  have hspans := mapM_eq_ok_iff.1 h
  clear h
  induction hspans with
  | nil => rfl
  | @cons leaf s leaves spans hs _ ih =>
    have hrest := ih fun l hl => hin l (List.mem_cons_of_mem _ hl)
    rw [filterMap_cons_toList, Leaf.at?_span hs (hin leaf List.mem_cons_self) hrow, hrest,
      List.filter_cons]
    by_cases hc : leaf.rect.Covers column (c.height - 1 - row)
    · simp only [hc, decide_true, if_true]
      rw [filterMap_cons_toList, Leaf.colour?_span hs hrow hc]
    · simp only [hc, decide_false, if_false, Bool.false_eq_true]
      rfl

namespace Canvas

variable {c : Canvas} {threading : Threading}

theorem exists_spans_iff (hin : ∀ leaf ∈ c.leaves, c.bounds.Contains leaf.rect) :
    (∃ spans, c.leaves.mapM (·.span c) = .ok spans) ↔
      ∀ leaf ∈ c.leaves, leaf.Readable c.source := by
  constructor
  · intro h leaf hl
    obtain ⟨spans, hspans⟩ := h
    exact (Leaf.exists_span_iff (hin leaf hl)).1 (exists_of_mapM hspans hl)
  · intro h
    exact exists_mapM fun leaf hl => (Leaf.exists_span_iff (hin leaf hl)).2 (h leaf hl)

theorem draw_eq_ok_iff {f : Frame} :
    c.draw threading = .ok f ↔ ∃ spans, c.leaves.mapM (·.span c) = .ok spans ∧ Frame.Fits c.size ∧
      ¬ (threading.parallel ∧ threading.threads = some 0) ∧ f.width = c.width ∧
        f.height = c.height ∧ f.pixels = paintRows spans c.width c.height := by
  unfold draw
  rw [bind_eq_ok_iff]
  refine exists_congr fun spans => and_congr_right fun _ => ?_
  split
  next hfits => exact ⟨fun h => (nomatch h), fun h => absurd h.1 hfits⟩
  next hfits =>
    split
    next hthreads => exact ⟨fun h => (nomatch h), fun h => absurd hthreads h.2.1⟩
    next hthreads =>
      constructor
      · intro h
        cases h
        exact ⟨not_not.1 hfits, hthreads, rfl, rfl, rfl⟩
      · intro h
        obtain ⟨-, -, hwidth, hheight, hpixels⟩ := h
        obtain ⟨⟨width, height, pixels, _, _, _⟩, _, _⟩ := f
        cases hwidth
        cases hheight
        cases hpixels
        rfl

/-- A canvas whose leaves lie inside is drawn if the frame can be held and all that its
leaves show is there. -/
theorem exists_draw_iff (hin : ∀ leaf ∈ c.leaves, c.bounds.Contains leaf.rect)
    (hthreads : ¬ (threading.parallel ∧ threading.threads = some 0)) :
    (∃ f, c.draw threading = .ok f) ↔
      Frame.Fits c.size ∧ ∀ leaf ∈ c.leaves, leaf.Readable c.source := by
  rw [← exists_spans_iff hin]
  constructor
  · intro h
    obtain ⟨f, hf⟩ := h
    obtain ⟨spans, hspans, hfits, -⟩ := draw_eq_ok_iff.1 hf
    exact ⟨hfits, spans, hspans⟩
  · intro h
    obtain ⟨hfits, spans, hspans⟩ := h
    refine ⟨{ width := c.width, height := c.height, pixels := paintRows spans c.width c.height,
              width_lt := c.size.x_lt, height_lt := c.size.y_lt,
              size_pixels := size_paintRows spans c.width c.height,
              width_pos := c.width_pos, height_pos := c.height_pos }, ?_⟩
    exact draw_eq_ok_iff.2 ⟨spans, hspans, hfits, hthreads, rfl, rfl, rfl⟩

/-- A pixel of a drawn canvas shows what the last leaf over its cell shows. -/
theorem pixel?_of_draw (hin : ∀ leaf ∈ c.leaves, c.bounds.Contains leaf.rect) {f : Frame}
    (h : c.draw threading = .ok f) {column row : Nat} (hcolumn : column < c.width)
    (hrow : row < c.height) :
    f.pixel? column row = some
      (((c.leaves.filter (·.rect.Covers column (c.height - 1 - row))).filterMap
        (·.colourAt? c.source column (c.height - 1 - row))).getLast?.getD .transparent) := by
  obtain ⟨spans, hspans, -, -, hwidth, hheight, hpixels⟩ := draw_eq_ok_iff.1 h
  unfold Picture.pixel?
  rw [hwidth, hheight, hpixels, if_pos ⟨hcolumn, hrow⟩, ← filterMap_at?_spans hspans hin hrow,
    ← getElem?_paintRow hcolumn]
  exact getElem?_paintRows hcolumn hrow

/-- Frames of canvases of one size are told by their pixels. -/
theorem frame_eq_of_pixel? {d : Canvas} {threading' : Threading} {f f' : Frame}
    (h : c.draw threading = .ok f) (h' : d.draw threading' = .ok f') (hsize : d.size = c.size)
    (hpixel : ∀ column row, column < c.width → row < c.height →
      f'.pixel? column row = f.pixel? column row) : f' = f := by
  obtain ⟨_, _, _, _, hwidth, hheight, -⟩ := draw_eq_ok_iff.1 h
  obtain ⟨_, _, _, _, hwidth', hheight', -⟩ := draw_eq_ok_iff.1 h'
  have hw : d.width = c.width := congrArg Point.x hsize
  have hh : d.height = c.height := congrArg Point.y hsize
  have hpicture : f'.toPicture = f.toPicture := by
    refine Picture.ext_pixel? (by rw [hwidth', hwidth, hw]) (by rw [hheight', hheight, hh]) ?_
    intro column row hcolumn hrow
    exact hpixel column row (by rwa [hwidth', hw] at hcolumn) (by rwa [hheight', hh] at hrow)
  cases f
  cases f'
  cases hpicture
  rfl

/-- A leaf whose part of the source image is not there is found before the frame is made, so
the size of the canvas makes no difference. -/
theorem draw_of_not_readable (hin : ∀ leaf ∈ c.leaves, c.bounds.Contains leaf.rect) {leaf : Leaf}
    (hleaf : leaf ∈ c.leaves) (h : ¬ leaf.Readable c.source) :
    ∃ e : Error, e.category = .validation ∧ c.draw threading = .error (.refused e) := by
  cases hspans : c.leaves.mapM (·.span c) with
  | ok spans => exact absurd ((exists_spans_iff hin).1 ⟨spans, hspans⟩ leaf hleaf) h
  | error failure =>
    obtain ⟨first, hfirst, hspan⟩ := exists_of_mapM_eq_error hspans
    obtain ⟨e, hcategory, rfl⟩ := Leaf.exists_of_span_eq_error (hin first hfirst) hspan
    exact ⟨e, hcategory, bind_eq_error_iff.2 (.inl hspans)⟩

/-- The frame of this canvas cannot be held either, but that is not found out. -/
example : ∃ c d, Canvas.blank (.ofCoordinates 2147483648 1073741824) .white = .ok c ∧
    c.insert "0" (.simple { rect := c.bounds, fill := .image .origin }) = .ok d ∧
      ¬ Frame.Fits d.size ∧ d.draw {} = .error (.refused (.sourceNotLoaded c.bounds)) := by
  refine ⟨_, _, rfl, rfl, ?_, rfl⟩
  decide

/-- A canvas whose frame cannot be held stops the work. -/
theorem draw_of_not_fits (hin : ∀ leaf ∈ c.leaves, c.bounds.Contains leaf.rect)
    (hreadable : ∀ leaf ∈ c.leaves, leaf.Readable c.source) (hfits : ¬ Frame.Fits c.size) :
    c.draw threading = .error (.overflow .capacity) := by
  obtain ⟨spans, hspans⟩ := (exists_spans_iff hin).2 hreadable
  unfold draw
  rw [hspans]
  simp only [bind, Except.bind, hfits, not_false_eq_true, if_true]
  rfl

/-- Plain colours need no source image. -/
theorem readable_of_solid {leaves : List Leaf}
    (hsolid : ∀ leaf ∈ leaves, ∃ colour, leaf.fill = .solid colour) (source : Option Picture) :
    ∀ leaf ∈ leaves, leaf.Readable source := by
  intro leaf hl
  obtain ⟨colour, hfill⟩ := hsolid leaf hl
  exact Leaf.readable_of_solid hfill source

/-- A canvas of plain colours that fits is drawn, and each pixel shows the last fill
over its cell. -/
theorem exists_draw (hin : ∀ leaf ∈ c.leaves, c.bounds.Contains leaf.rect)
    (hsolid : ∀ leaf ∈ c.leaves, ∃ colour, leaf.fill = .solid colour)
    (hfits : Frame.Fits c.size)
    (hthreads : ¬ (threading.parallel ∧ threading.threads = some 0)) :
    ∃ f, c.draw threading = .ok f ∧ f.width = c.width ∧ f.height = c.height ∧
      ∀ column row, column < c.width → row < c.height →
        f.pixel? column row = some (((fillsAt c.leaves column (c.height - 1 - row)).filterMap
          Fill.colour?).getLast?.getD .transparent) := by
  obtain ⟨f, hf⟩ := (exists_draw_iff hin hthreads).2 ⟨hfits, readable_of_solid hsolid c.source⟩
  obtain ⟨_, _, _, _, hwidth, hheight, -⟩ := draw_eq_ok_iff.1 hf
  refine ⟨f, hf, hwidth, hheight, fun column row hcolumn hrow => ?_⟩
  rw [pixel?_of_draw hin hf hcolumn hrow]
  unfold fillsAt
  rw [List.filterMap_map]
  refine congrArg (fun l : List Rgba => some (l.getLast?.getD .transparent)) ?_
  refine List.filterMap_congr fun leaf hl => ?_
  obtain ⟨colour, hfill⟩ := hsolid leaf (List.mem_filter.1 hl).1
  rw [Leaf.colourAt?_of_solid hfill, Function.comp, hfill]
  rfl

end Canvas

end Easel
