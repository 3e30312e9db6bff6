import Easel.Proofs.Refusals
import Easel.Proofs.Windows

/-!
# Moves over long distances

A point is moved by a vector in two steps: the end of the vector is added before its start is
taken away. Inside a canvas the point that is wanted has its place, but the sum in between need
not have one. On a canvas that began blank all fills are plain colours, so nothing else can keep
a swap of two blocks of the same size from being carried out. One leaf takes its new rectangle as
it is; in a block of several leaves the one in the upper-right corner has the largest sums, so
they alone decide (`stuck_iff_overreaches`).

Main statement: `swap_accepted_iff_not_overreaching`, with `long_swap_is_refused` for a swap on
whose way a sum leaves its range.
-/

namespace Easel

/-! ## Plain colours -/

/-- Every leaf of the block is of one colour. -/
def Block.Plain (block : Block) : Prop :=
  ∀ leaf ∈ block.leaves, ∃ colour, leaf.fill = .solid colour

namespace Block

theorem plain_simple {leaf : Leaf} {colour : Rgba} (h : leaf.fill = .solid colour) :
    (simple leaf).Plain := by
  intro l hl
  rw [List.mem_singleton.1 hl]
  exact ⟨colour, h⟩

theorem hereditary_plain : Hereditary Plain := by
  refine hereditary_leaves (fun _ colour => ⟨colour, rfl⟩) fun leaf piece _ _ _ h hp => ?_
  rw [(Leaf.half?_eq_some_iff.1 hp).2]
  exact h

theorem Plain.relocated {block new : Block} {target : Rect} (h : block.Plain)
    (hsize : block.size = target.size) (hnew : block.relocated target = .ok new) : new.Plain := by
  refine forall_leaves_relocated (fun leaf moved _ _ hleaf hm => ?_) h hsize hnew
  obtain ⟨colour, hcolour⟩ := hleaf
  have hfill := hm.fill
  rw [hcolour] at hfill
  exact ⟨colour, (Except.ok.inj hfill).symm⟩

end Block

/-! ## Sums out of range -/

namespace Block

/-- The block has a list of leaves, and is not a leaf itself. -/
def IsComplex : Block → Prop
  | simple _ => False
  | complex _ _ => True

instance : (block : Block) → Decidable block.IsComplex
  | simple _ => inferInstanceAs (Decidable False)
  | complex _ _ => inferInstanceAs (Decidable True)

variable {block : Block} {target : Rect}

/-- A leaf of a tiled block ends in its upper-right corner. -/
theorem Tiled.exists_last_leaf (h : block.Tiled) :
    ∃ leaf ∈ block.leaves, leaf.rect.topRight = block.rect.topRight := by
  have hx := block.rect.x_lt
  have hy := block.rect.y_lt
  have hone := h.once (block.rect.topRight.x - 1) (block.rect.topRight.y - 1)
    (by simp only [Rect.Covers]; omega)
  obtain ⟨leaf, hl, hcov⟩ := List.countP_pos_iff.1 (hone ▸ Nat.one_pos)
  have hcov : leaf.rect.Covers _ _ := of_decide_eq_true hcov
  have hin := Rect.contains_iff.1 (h.inside leaf hl)
  refine ⟨leaf, hl, Point.ext_iff.2 ?_⟩
  simp only [Rect.Covers] at hcov
  omega

/-- Tiled content of plain colours is stuck exactly if it has several leaves and the sums of its
upper-right corner leave their range. -/
theorem stuck_iff_overreaches (ht : block.Tiled) (hplain : block.Plain) :
    block.Stuck target ↔ block.IsComplex ∧ block.rect.Overreaches target := by
  constructor
  · intro h
    have hover : block.rect.Overreaches target :=
      by_contra fun hover => not_stuck ht.inside hplain hover h
    cases h with
    | anchor hl hfill _ =>
      obtain ⟨colour, hcolour⟩ := hplain _ hl
      rw [hcolour] at hfill
      cases hfill
    | corner hblock => exact ⟨hblock ▸ trivial, hover⟩
  · intro h
    obtain ⟨hcomplex, hover⟩ := h
    cases block with
    | simple leaf => exact hcomplex.elim
    | complex rect leaves =>
      obtain ⟨leaf, hl, hlast⟩ := ht.exists_last_leaf
      exact .corner rfl hl (.inr rfl) (hlast ▸ hover.offset?_eq_none _)

end Block

/-! ## Swaps on a canvas that began blank -/

/-- On a canvas of any size that began blank, after any instructions: whether two blocks of the
same size are exchanged depends only on the sums of coordinates on the way of a content of
several leaves, in either direction, if the price fits. Where such a sum leaves its range, the
swap is refused as an invalid block. All sums are in range on a canvas of at most `2 ^ 31`
columns and rows. -/
theorem swap_accepted_iff_not_overreaching {size : Point} {background : Rgba} {c : Canvas}
    (hc : Canvas.blank size background = .ok c) (table : CostTable) (is : List Instruction)
    {s : Interpreter} (hs : s = is.foldl Interpreter.after (.ofCanvas c table))
    {id₁ id₂ : String} {block₁ block₂ : Block} (hb₁ : s.canvas.get? id₁ = some block₁)
    (hb₂ : s.canvas.get? id₂ = some block₂) (hsize : block₁.size = block₂.size) :
    let i := Instruction.swap id₁ id₂
    let overreaching := block₁.IsComplex ∧ block₁.rect.Overreaches block₂.rect ∨
      block₂.IsComplex ∧ block₂.rect.Overreaches block₁.rect
    (¬ s.Overflows i → (s.Accepts i ↔ ¬ overreaching)) ∧
    (s.RefusedAs i .invalidBlock ↔ overreaching) ∧
    (size.x ≤ 2147483648 → size.y ≤ 2147483648 → ¬ overreaching) := by
  intro i overreaching
  obtain ⟨hcsize, hentries⟩ := Canvas.of_blank hc
  have hsound : s.Sound size := by
    rw [hs]
    exact (Interpreter.sound_ofCanvas table hcsize ⟨_, hentries⟩).foldl_after is
  have hplain : ∀ e ∈ s.canvas.blocks.entries, e.2.Plain := by
    rw [hs]
    refine Interpreter.forall_blocks_foldl_after Block.hereditary_plain
      (fun _ _ _ h hsize hnew => h.relocated hsize hnew) (fun e he => ?_) is
    rw [show (Interpreter.ofCanvas c table).canvas.blocks.entries = _ from hentries] at he
    rw [List.mem_singleton.1 he]
    exact Block.plain_simple rfl
  have hstuck {id : String} {block : Block} (hb : s.canvas.get? id = some block) (target : Rect) :
      block.Stuck target ↔ block.IsComplex ∧ block.rect.Overreaches target :=
    Block.stuck_iff_overreaches (hsound.tessellated.tiled_of_get? hb)
      (hplain _ (Registry.mem_of_get?_eq_some hb))
  obtain ⟨haccepts, -, hrefused⟩ := Interpreter.swap_answer hb₁ hb₂
  rw [hstuck hb₁, hstuck hb₂] at haccepts hrefused
  refine ⟨fun hfits => (haccepts hfits).trans (and_iff_right hsize),
    hrefused.trans (and_iff_right hsize), fun hx hy => ?_⟩
  have hin₁ := Canvas.contains_bounds_of_get? hb₁
  have hin₂ := Canvas.contains_bounds_of_get? hb₂
  rw [← hsound.size_eq] at hx hy
  exact not_or.2 ⟨fun h => Canvas.not_overreaches hin₁ hin₂ hx hy h.2,
    fun h => Canvas.not_overreaches hin₂ hin₁ hx hy h.2⟩

/-- On the widest canvas a joined column is exchanged with the one on its left, but not with
itself. -/
theorem swap_accepted_iff_not_overreaching_widest : ∃ c s joined column,
    Canvas.blank (.ofCoordinates 4294967295 2) .white = .ok c ∧
      s = [.verticalCut "0" 2147483647, .verticalCut "0.1" 4294967294, .horizontalCut "0.1.0" 1,
        .merge "0.1.0.0" "0.1.0.1"].foldl Interpreter.after (.ofCanvas c .legacy) ∧
        s.canvas.get? "1" = some joined ∧ s.canvas.get? "0.0" = some column ∧
          joined.size = column.size ∧ ¬ joined.rect.Overreaches column.rect ∧
            s.RefusedAs (.swap "1" "1") .invalidBlock := by
  obtain ⟨c, hc⟩ : ∃ c, Canvas.blank (.ofCoordinates 4294967295 2) .white = .ok c := ⟨_, rfl⟩
  obtain ⟨s, hs⟩ : ∃ s, s = [.verticalCut "0" 2147483647, .verticalCut "0.1" 4294967294,
    .horizontalCut "0.1.0" 1, .merge "0.1.0.0" "0.1.0.1"].foldl Interpreter.after
      (.ofCanvas c .legacy) := ⟨_, rfl⟩
  obtain ⟨joined, hjoined, column, hcolumn, hsize, hcomplex, hover⟩ :
      ∃ joined ∈ s.canvas.get? "1", ∃ column ∈ s.canvas.get? "0.0", joined.size = column.size ∧
        joined.IsComplex ∧ joined.rect.Overreaches joined.rect := by
    cases hc
    rw [hs]
    decide +kernel
  have haccepts : s.Accepts (.swap "1" "0.0") := by
    cases hc
    rw [hs]
    decide +kernel
  obtain ⟨hexchanged, -⟩ :=
    swap_accepted_iff_not_overreaching hc .legacy _ hs hjoined hcolumn hsize
  obtain ⟨-, hrefused, -⟩ := swap_accepted_iff_not_overreaching hc .legacy _ hs hjoined hjoined rfl
  have hnot := (hexchanged (Interpreter.not_overflows_of_accepts haccepts)).1 haccepts
  exact ⟨c, s, joined, column, hc, hs, hjoined, hcolumn, hsize,
    fun h => hnot (.inl ⟨hcomplex, h⟩), hrefused.2 (.inl ⟨hcomplex, hover⟩)⟩

/-- Two blocks of the same size next to each other, the right one joined of two rows: on the way
to the left place its upper-right corner would pass the last coordinate, so the blocks are not
exchanged. -/
theorem long_swap_is_refused : ∃ c s joined column,
    Canvas.blank (.ofCoordinates 2147483649 2) .white = .ok c ∧
      s = [.verticalCut "0" 2147483647, .verticalCut "0.1" 2147483648, .horizontalCut "0.1.1" 1,
        .merge "0.1.1.0" "0.1.1.1"].foldl Interpreter.after (.ofCanvas c .legacy) ∧
        s.canvas.get? "1" = some joined ∧ s.canvas.get? "0.1.0" = some column ∧
          joined.size = column.size ∧
            s.answer (.swap "1" "0.1.0") = .error (.refused (.cornerStuck
              (.ofCoordinates 2147483649 1) (.ofCoordinates 2147483648 0)
              (.ofCoordinates 2147483647 0))) := by
  obtain ⟨c, hc⟩ : ∃ c, Canvas.blank (.ofCoordinates 2147483649 2) .white = .ok c := ⟨_, rfl⟩
  obtain ⟨s, hs⟩ : ∃ s, s = [.verticalCut "0" 2147483647, .verticalCut "0.1" 2147483648,
    .horizontalCut "0.1.1" 1, .merge "0.1.1.0" "0.1.1.1"].foldl Interpreter.after
      (.ofCanvas c .legacy) := ⟨_, rfl⟩
  obtain ⟨joined, hjoined, column, hcolumn, hsize⟩ : ∃ joined ∈ s.canvas.get? "1",
      ∃ column ∈ s.canvas.get? "0.1.0", joined.size = column.size := by
    cases hc
    rw [hs]
    decide +kernel
  have hanswer : s.answer (.swap "1" "0.1.0") = .error (.refused (.cornerStuck
      (.ofCoordinates 2147483649 1) (.ofCoordinates 2147483648 0)
      (.ofCoordinates 2147483647 0))) := by
    cases hc
    rw [hs]
    decide +kernel
  exact ⟨c, s, joined, column, hc, hs, hjoined, hcolumn, hsize, hanswer⟩

end Easel
