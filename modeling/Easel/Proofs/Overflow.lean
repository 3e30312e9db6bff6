import Easel.Proofs.Provenance
import Easel.Proofs.Windows
import Easel.Verdict

/-!
# Where scoring leaves the range of numbers

Coordinates are moved by steps that are refused when they leave their range, and what is drawn
lies inside the canvas, with its windows inside the source image. So neither a step nor the
drawing of a leaf forms a number that is out of range (`Leaf.DrawsInRange`). The sums of
prices are not guarded: a run is stopped where they leave the range of 64 bits, and so is a
judgement where the distance to the target does not fit as well. A frame that cannot be held
is the third cause, and there is no other one. Any other canvas can be stopped while it is drawn
by a leaf that reaches above it as well (`Canvas.draw_eq_overflow_iff_overhung`).

Main statement: `scoring_overflows_iff`.
-/

namespace Easel

/-! ## Steps and runs -/

namespace Interpreter

variable {s t : Interpreter} {i : Instruction}

theorem CarriesOut.totalCost_lt {is : List Instruction} {sum : Nat} (h : s.CarriesOut is sum t)
    (hs : s.totalCost < 18446744073709551616) : t.totalCost < 18446744073709551616 := by
  induction h with
  | nil s => exact hs
  | cons h _ ih =>
    rcases paid_of_apply h with ⟨-, -, rfl⟩ | ⟨-, -, hlt⟩
    · exact ih hs
    · exact ih hlt

theorem CarriesOut.eq_foldl_after {is : List Instruction} {sum : Nat}
    (h : s.CarriesOut is sum t) : t = is.foldl after s := by
  induction h with
  | nil s => rfl
  | cons h _ ih => rw [ih, List.foldl_cons, after_of_apply h]

/-- A step is stopped where its price does not fit into the sum of all prices. -/
theorem apply_eq_overflow (hs : s.totalCost < 18446744073709551616) {o : Outcome}
    (ho : s.outcome i = .ok o) (hlarge : 18446744073709551616 ≤ s.totalCost + o.cost) :
    ∃ u, Edit.apply i s = .error (.overflow .add) u := by
  obtain ⟨d, -, hok | ⟨-, hover⟩⟩ := Edit.apply_of_outcome_ok ho
  · -- what has been paid is always in range, so the step cannot have been carried out
    rcases paid_of_apply hok with ⟨-, hcost, -⟩ | ⟨-, -, hlt⟩
    · omega
    · exact absurd hlt (Nat.not_lt.2 hlarge)
  · exact ⟨_, hover⟩

/-- Somewhere in the program the sum of all prices leaves its range: the instructions before are
carried out, and the next one would be. -/
def PricesOverflow (s : Interpreter) (p : Program) : Prop :=
  ∃ before l rest sum t o, p.lines = before ++ l :: rest ∧
    s.CarriesOut (before.map (·.instruction)) sum t ∧ t.outcome l.instruction = .ok o ∧
      18446744073709551616 ≤ t.totalCost + o.cost

theorem run_eq_overflow_iff (hs : s.totalCost < 18446744073709551616) {p : Program}
    {kind : Overflow} :
    (∃ u, Edit.run p s = .error (.overflow kind) u) ↔ kind = .add ∧ s.PricesOverflow p := by
  constructor
  · intro h
    obtain ⟨u, hu⟩ := h
    have hruns := s.runs_run p
    rw [hu] at hruns
    cases hruns with
    | overflowed hlines hbefore hoverflow =>
      exact ⟨rfl, _, _, _, _, _, _, hlines, hbefore, hoverflow⟩
  · intro h
    obtain ⟨rfl, before, l, rest, sum, t, o, hlines, hbefore, ho, hlarge⟩ := h
    obtain ⟨u, hu⟩ := apply_eq_overflow (hbefore.totalCost_lt hs) ho hlarge
    exact ⟨u, Edit.run_of_apply_error hlines hbefore hu⟩

end Interpreter

/-- At the beginning each block is one leaf. -/
theorem Program.inside_of_canvas {p : Program} {layout : Option Layout} {c : Canvas}
    (h : p.canvas layout = .ok c) :
    ∀ e ∈ c.blocks.entries, ∀ leaf ∈ e.2.leaves, e.2.rect.Contains leaf.rect := by
  cases layout with
  | some layout => exact Canvas.inside_of_ofLayout h
  | none => exact Canvas.inside_of_blank h

namespace Run

variable {text : String} {layout : Option Layout} {table : CostTable}

theorem ofText_eq (text : String) (layout : Option Layout) (table : CostTable) :
    ofText text layout table = (do
      let p ← orRefuse (Program.ofText text)
      let c ← orRefuse (p.canvas layout)
      ofResult (Edit.run p (.ofCanvas c table))) := rfl

theorem ofText_eq_overflow_iff {kind : Overflow} :
    ofText text layout table = .error (.overflow kind) ↔
      kind = .add ∧ ∃ p c, Program.ofText text = .ok p ∧ p.canvas layout = .ok c ∧
        (Interpreter.ofCanvas c table).PricesOverflow p := by
  have hrun : ∀ p c, ofResult (Edit.run p (.ofCanvas c table)) = .error (.overflow kind) ↔
      kind = .add ∧ (Interpreter.ofCanvas c table).PricesOverflow p := by
    intro p c
    rw [← Interpreter.run_eq_overflow_iff (by show 0 < _; decide)]
    cases Edit.run p (.ofCanvas c table) <;> simp [ofResult]
  simp only [ofText_eq, bind_eq_error_iff, orRefuse_ne_overflow, false_or, orRefuse_eq_ok_iff, hrun]
  constructor
  · intro h
    obtain ⟨p, hp, c, hc, hkind, hover⟩ := h
    exact ⟨hkind, p, c, hp, hc, hover⟩
  · intro h
    obtain ⟨hkind, p, c, hp, hc, hover⟩ := h
    exact ⟨p, hp, c, hc, hkind, hover⟩

/-- The leaves of the canvas that a program leaves lie inside it. -/
theorem inside_of_ofText {run : Run} (h : ofText text layout table = .ok run) :
    ∀ leaf ∈ run.canvas.leaves, run.canvas.bounds.Contains leaf.rect := by
  rw [ofText_eq] at h
  simp only [bind_eq_ok_iff, orRefuse_eq_ok_iff] at h
  obtain ⟨p, -, c, hc, hresult⟩ := h
  cases hrun : Edit.run p (.ofCanvas c table) with
  | error f s =>
    rw [hrun] at hresult
    cases hresult
  | ok cost s =>
    rw [hrun] at hresult
    cases hresult
    rw [(Edit.run_eq_ok_iff.1 hrun).eq_foldl_after]
    exact Interpreter.inside_foldl_after (Program.inside_of_canvas hc) _

end Run

/-! ## Drawing -/

/-- The differences and sums that are formed to draw the leaf stay in range. The upper corner is
not above the upper edge, from which rows are counted; and for a window, its upper edge and the
pixel for every row and column of the leaf lie in the source image. -/
structure Leaf.DrawsInRange (leaf : Leaf) (c : Canvas) : Prop where
  right_le : leaf.rect.topRight.x ≤ c.width
  top_le : leaf.rect.topRight.y ≤ c.height
  edge_le : ∀ {span : Span} {anchor : Point} {picture : Picture}, leaf.span c = .ok span →
    leaf.fill = .image anchor → c.source = some picture →
      anchor.y + leaf.rect.size.y ≤ picture.height
  pixel_lt : ∀ {span : Span} {picture : Picture} {x y column row : Nat},
    leaf.span c = .ok span → span.paint = .window picture x y → span.MeetsColumn column →
      span.MeetsRow row →
        x + (column - span.left) < picture.width ∧ y + (row - span.top) < picture.height

/-- A window that is painted lies in the source image. -/
theorem Leaf.window_of_paint {leaf : Leaf} {c : Canvas} {picture : Picture} {x y : Nat}
    (h : leaf.paint c = .ok (.window picture x y)) :
    ∃ anchor, leaf.fill = .image anchor ∧ c.source = some picture ∧
      (anchor.x + leaf.rect.size.x ≤ picture.width ∧
        anchor.y + leaf.rect.size.y ≤ picture.height) ∧
      x = anchor.x ∧ y = picture.height - (anchor.y + leaf.rect.size.y) := by
  obtain ⟨colour, -, hpaint⟩ | ⟨anchor, source, hfill, hsource, hfits, hpaint⟩ :=
    paint_eq_ok_iff.1 h
  · cases hpaint
  · cases hpaint
    exact ⟨anchor, hfill, hsource, hfits, rfl, rfl⟩

/-- The drawing of a leaf is stopped where it has all that it shows but reaches above the
canvas. -/
theorem Leaf.span_eq_overflow_iff {leaf : Leaf} {c : Canvas} {kind : Overflow} :
    leaf.span c = .error (.overflow kind) ↔
      kind = .subtract ∧ leaf.Readable c.source ∧ c.height < leaf.rect.topRight.y := by
  unfold span
  simp only [bind_eq_error_iff, orRefuse_ne_overflow, false_or, orRefuse_eq_ok_iff,
    ← exists_paint_iff]
  constructor
  · intro h
    obtain ⟨paint, hpaint, hrows⟩ := h
    split at hrows
    next => cases hrows
    next htop =>
      cases hrows
      exact ⟨rfl, ⟨paint, hpaint⟩, Nat.not_le.1 htop⟩
  · intro h
    obtain ⟨rfl, ⟨paint, hpaint⟩, htop⟩ := h
    refine ⟨paint, hpaint, ?_⟩
    rw [if_neg (Nat.not_le.2 htop)]
    rfl

namespace Canvas

variable {c : Canvas} {threading : Threading}

theorem drawsInRange {leaf : Leaf} (hin : c.bounds.Contains leaf.rect) : leaf.DrawsInRange c where
  right_le := (contains_bounds_iff.1 hin).1
  top_le := (contains_bounds_iff.1 hin).2
  edge_le := by
    intro span anchor picture hspan hfill hsource
    obtain ⟨picture', hpicture', -, hy⟩ := (Leaf.exists_span_iff hin).1 ⟨span, hspan⟩ anchor hfill
    obtain rfl : picture = picture' := Option.some.inj (hsource.symm.trans hpicture')
    exact hy
  pixel_lt := by
    intro span picture x y column row hspan hwindow hcolumn hrow
    obtain ⟨paint, hpaint, htop, rfl⟩ := Leaf.span_eq_ok_iff.1 hspan
    obtain rfl : paint = .window picture x y := hwindow
    obtain ⟨anchor, -, -, ⟨hx, hy⟩, rfl, rfl⟩ := Leaf.window_of_paint hpaint
    obtain ⟨hleft, hright⟩ := hcolumn
    obtain ⟨hupper, hlower⟩ := hrow
    simp only [Rect.size, Point.diff] at hx hy hleft hright hupper hlower ⊢
    omega

/-- The first leaf that cannot be painted has all that it shows, but it reaches above the
canvas. -/
def Overhung (c : Canvas) : Prop :=
  ∃ before leaf after, c.leaves = before ++ leaf :: after ∧ (∀ l ∈ before, l.Paintable c) ∧
    leaf.Readable c.source ∧ c.height < leaf.rect.topRight.y

/-- Two things can stop the drawing of a canvas: a leaf that reaches above it, and a frame that
cannot be held. -/
theorem draw_eq_overflow_iff_overhung {kind : Overflow} :
    c.draw threading = .error (.overflow kind) ↔ kind = .subtract ∧ c.Overhung ∨
      kind = .capacity ∧ (∀ leaf ∈ c.leaves, leaf.Paintable c) ∧ ¬ Frame.Fits c.size := by
  constructor
  · intro h
    rcases bind_eq_error_iff.1 h with hspans | ⟨spans, hspans, hframe⟩
    · obtain ⟨before, leaf, after, hleaves, hbefore, hspan⟩ := mapM_eq_error_iff.1 hspans
      obtain ⟨rfl, hreadable, hlt⟩ := Leaf.span_eq_overflow_iff.1 hspan
      exact .inl ⟨rfl, before, leaf, after, hleaves,
        fun l hl => Leaf.exists_span_iff_paintable.1 (hbefore l hl), hreadable, hlt⟩
    · have hpaintable : ∀ leaf ∈ c.leaves, leaf.Paintable c := fun leaf hl =>
        Leaf.exists_span_iff_paintable.1 (exists_of_mapM hspans hl)
      split at hframe
      next hfits =>
        cases hframe
        exact .inr ⟨rfl, hpaintable, hfits⟩
      next =>
        split at hframe
        · cases hframe
        · cases hframe
  · intro h
    rcases h with ⟨rfl, before, leaf, after, hleaves, hbefore, hoverhang⟩ | ⟨rfl, hall, hfits⟩
    · refine bind_eq_error_iff.2 (.inl (mapM_eq_error_iff.2 ?_))
      exact ⟨before, leaf, after, hleaves,
        fun l hl => Leaf.exists_span_iff_paintable.2 (hbefore l hl),
        Leaf.span_eq_overflow_iff.2 ⟨rfl, hoverhang⟩⟩
    · obtain ⟨spans, hspans⟩ := exists_mapM fun leaf hl =>
        Leaf.exists_span_iff_paintable.2 (hall leaf hl)
      refine bind_eq_error_iff.2 (.inr ⟨spans, hspans, ?_⟩)
      rw [if_pos hfits]
      rfl

theorem not_overhung (hin : ∀ leaf ∈ c.leaves, c.bounds.Contains leaf.rect) : ¬ c.Overhung := by
  intro h
  obtain ⟨before, leaf, after, hleaves, -, -, hlt⟩ := h
  have hl : leaf ∈ c.leaves := hleaves ▸ List.mem_append_right _ List.mem_cons_self
  exact absurd (contains_bounds_iff.1 (hin leaf hl)).2 (Nat.not_le.2 hlt)

theorem draw_eq_overflow_iff (hin : ∀ leaf ∈ c.leaves, c.bounds.Contains leaf.rect)
    {kind : Overflow} : c.draw threading = .error (.overflow kind) ↔
      kind = .capacity ∧ (∀ leaf ∈ c.leaves, leaf.Readable c.source) ∧ ¬ Frame.Fits c.size := by
  have hpaintable : (∀ leaf ∈ c.leaves, leaf.Paintable c) ↔
      ∀ leaf ∈ c.leaves, leaf.Readable c.source :=
    forall₂_congr fun leaf hl => and_iff_left (contains_bounds_iff.1 (hin leaf hl)).2
  rw [draw_eq_overflow_iff_overhung, hpaintable]
  exact or_iff_right fun h => not_overhung hin h.2

end Canvas

/-! ## Judgements -/

theorem addAmounts_eq_overflow_iff {a b : Nat} {kind : Overflow} :
    addAmounts a b = .error (.overflow kind) ↔ kind = .add ∧ 18446744073709551616 ≤ a + b := by
  unfold addAmounts
  split
  next h => simp [h]
  next h => simp [Nat.not_lt.1 h, eq_comm]

/-- A run ends in an overflow just where the sum of the prices does not fit into 64 bits: the
instructions before some line are carried out, and the price of the next one is too much. A
judgement ends in one where the run does; where all of the canvas that the run leaves can be
drawn, but its frame cannot be held; and where the distance to the target and the prices
together do not fit. No other number leaves its range: in particular none that tells of places,
since those that are formed to draw a leaf stay in range. -/
theorem scoring_overflows_iff (text : String) (layout : Option Layout) (target : Frame)
    (problem : Nat) (threading : Threading) :
    (∀ kind, Run.ofText text layout (.ofProblem problem) = .error (.overflow kind) ↔
      kind = .add ∧ ∃ p c, Program.ofText text = .ok p ∧ p.canvas layout = .ok c ∧
        (Interpreter.ofCanvas c (.ofProblem problem)).PricesOverflow p) ∧
    (∀ kind, Verdict.ofText text layout target problem threading = .error (.overflow kind) ↔
      Run.ofText text layout (.ofProblem problem) = .error (.overflow kind) ∨
      ∃ run, Run.ofText text layout (.ofProblem problem) = .ok run ∧
        ((kind = .capacity ∧ (∀ leaf ∈ run.canvas.leaves, leaf.Readable run.canvas.source) ∧
          ¬ Frame.Fits run.canvas.size) ∨
        ∃ frame similarity, run.canvas.draw threading = .ok frame ∧
          target.similarity frame = .ok similarity ∧ kind = .add ∧
            18446744073709551616 ≤ run.cost + similarity)) ∧
    ∀ run, Run.ofText text layout (.ofProblem problem) = .ok run →
      ∀ leaf ∈ run.canvas.leaves, leaf.DrawsInRange run.canvas := by
  refine ⟨fun kind => Run.ofText_eq_overflow_iff, fun kind => ?_, fun run hrun leaf hl => ?_⟩
  · unfold Verdict.ofText
    rw [bind_eq_error_iff]
    refine or_congr_right (exists_congr fun run => and_congr_right fun hrun => ?_)
    rw [bind_eq_error_iff, Canvas.draw_eq_overflow_iff (Run.inside_of_ofText hrun)]
    refine or_congr_right (exists_congr fun frame => ?_)
    simp only [bind_eq_error_iff, orRefuse_ne_overflow, false_or, orRefuse_eq_ok_iff,
      addAmounts_eq_overflow_iff, pure, Except.pure, reduceCtorEq, and_false, exists_false, or_false,
      exists_and_left]
  · exact Canvas.drawsInRange (Run.inside_of_ofText hrun leaf hl)

/-- On the largest canvas the price of a block of one cell fits into 64 bits, since it is cut
off there, and the price of the next one does not fit any more. -/
theorem scoring_overflows_on_tiny_block :
    let text := "color[0][0,0,0,0]\ncolor[0][0,0,0,0]"
    let layout : Layout :=
      { size := .ofCoordinates 4294967295 4294967295
        presets :=
          [{ id := "0", bottomLeft := .origin, topRight := .ofCoordinates 1 1,
             colour := some .transparent }] }
    Run.ofText text (some layout) (.ofProblem 1) = .error (.overflow .add) ∧
      (∀ target threading,
        Verdict.ofText text (some layout) target 1 threading = .error (.overflow .add)) ∧
      ∃ p c, Program.ofText text = .ok p ∧ p.canvas (some layout) = .ok c ∧
        (Interpreter.ofCanvas c (.ofProblem 1)).PricesOverflow p := by
  intro text layout
  have hrun : Run.ofText text (some layout) (.ofProblem 1) = .error (.overflow .add) :=
    eq_error_of_map (f := fun _ => ()) (by decide +kernel)
  refine ⟨hrun, fun target threading => ?_, (Run.ofText_eq_overflow_iff.1 hrun).2⟩
  unfold Verdict.ofText
  rw [hrun]
  rfl

end Easel
