import Easel.Proofs.Areas
import Easel.Proofs.Refusals

/-!
# Blocks that can be joined

A merge compares corners: one rectangle has to lie on top of the other or beside it, with the
same span on the other axis. `Rect.Compose` says what this is for, without corners: the two
rectangles share no cell, and together they have the cells of one rectangle. Both say the same
(`Rect.aligned_iff`). For the one direction each corner cell of the common rectangle is looked
for in the two parts. Opposite corners are never in the same part, since that one would have all
cells; so two neighbouring corners are, and tell the whole edge.

Main statement: `accepts_merge_iff_compose`.
-/

namespace Easel

namespace Rect

/-- The rectangles `r` and `s` share no cell, and together they have the cells of `u`. -/
structure Compose (r s u : Rect) : Prop where
  disjoint : ∀ x y, ¬ (r.Covers x y ∧ s.Covers x y)
  covers : ∀ x y, u.Covers x y ↔ r.Covers x y ∨ s.Covers x y

variable {r s u : Rect}

theorem Stacked.symm (h : r.Stacked s) : s.Stacked r :=
  ⟨h.1.symm.imp Eq.symm Eq.symm, h.2.1.symm, h.2.2.symm⟩

theorem SideBySide.symm (h : r.SideBySide s) : s.SideBySide r :=
  ⟨h.1.symm.imp Eq.symm Eq.symm, h.2.1.symm, h.2.2.symm⟩

namespace Compose

theorem symm (h : r.Compose s u) : s.Compose r u where
  disjoint x y hc := h.disjoint x y hc.symm
  covers x y := (h.covers x y).trans or_comm

theorem contains_left (h : r.Compose s u) : u.Contains r :=
  contains_of_covers fun x y hc => (h.covers x y).2 (.inl hc)

/-- No part has all cells. -/
theorem not_contains (h : r.Compose s u) : ¬ r.Contains u := by
  intro hall
  have hs := s.covers_bottomLeft
  exact h.disjoint _ _ ⟨hall.covers ((h.covers _ _).2 (.inr hs)), hs⟩

/-- The part with the lower-left cell ends where the other one begins. -/
theorem aligned_of_corner (h : r.Compose s u) (hcorner : r.Covers u.bottomLeft.x u.bottomLeft.y) :
    r.Stacked s ∨ r.SideBySide s := by
  have hux := u.x_lt
  have huy := u.y_lt
  have hr := contains_iff.1 h.contains_left
  have hs := contains_iff.1 h.symm.contains_left
  have hpart := mt contains_iff.2 h.not_contains
  have hpart' := mt contains_iff.2 h.symm.not_contains
  have hfar : s.Covers (u.topRight.x - 1) (u.topRight.y - 1) := by
    have hc := (h.covers (u.topRight.x - 1) (u.topRight.y - 1)).1 (by simp only [Covers]; omega)
    refine hc.resolve_left fun hc' => hpart ?_
    simp only [Covers] at hcorner hc'
    omega
  have hright := (h.covers (u.topRight.x - 1) u.bottomLeft.y).1 (by simp only [Covers]; omega)
  have htop := (h.covers u.bottomLeft.x (u.topRight.y - 1)).1 (by simp only [Covers]; omega)
  rcases hright with hright | hright
  · -- `r` has the lower edge, `s` the upper one
    have htop : s.Covers u.bottomLeft.x (u.topRight.y - 1) := by
      refine htop.resolve_left fun hc => hpart ?_
      simp only [Covers] at hright hc
      omega
    have hgap := (h.covers u.bottomLeft.x r.topRight.y).1
    have hshare := h.disjoint u.bottomLeft.x s.bottomLeft.y
    left
    simp only [Covers] at hcorner hfar hright htop hgap hshare
    simp only [Stacked]
    omega
  · -- `s` has the right edge, `r` the left one
    have htop : r.Covers u.bottomLeft.x (u.topRight.y - 1) := by
      refine htop.resolve_right fun hc => hpart' ?_
      simp only [Covers] at hfar hright hc
      omega
    have hgap := (h.covers r.topRight.x u.bottomLeft.y).1
    have hshare := h.disjoint s.bottomLeft.x u.bottomLeft.y
    right
    simp only [Covers] at hcorner hfar hright htop hgap hshare
    simp only [SideBySide]
    omega

end Compose

/-- Rectangles are aligned exactly if they make up one rectangle without sharing a cell. -/
theorem aligned_iff : (r.Stacked s ∨ r.SideBySide s) ↔ ∃ u, r.Compose s u := by
  constructor
  · intro h
    exact ⟨r.hull s, fun _ _ hc => not_covers_of_aligned h hc.1 hc.2, covers_hull h⟩
  · intro h
    obtain ⟨u, hu⟩ := h
    rcases (hu.covers _ _).1 u.covers_bottomLeft with hc | hc
    · exact hu.aligned_of_corner hc
    · exact (hu.symm.aligned_of_corner hc).imp Stacked.symm SideBySide.symm

/-- Rectangles over each other are not beside each other. -/
theorem Stacked.not_sideBySide (h : r.Stacked s) : ¬ r.SideBySide s := by
  have hrx := r.x_lt
  have hsx := s.x_lt
  simp only [Stacked] at h
  simp only [SideBySide]
  omega

theorem not_aligned_self : ¬ (r.Stacked r ∨ r.SideBySide r) := by
  have hx := r.x_lt
  have hy := r.y_lt
  simp only [Stacked, SideBySide]
  omega

/-- Two aligned rectangles tile their hull. -/
theorem tiledBy_hull (h : r.Stacked s ∨ r.SideBySide s) : (r.hull s).TiledBy [r, s] := by
  refine ⟨?_, fun x y hc => ?_⟩
  · simp only [List.forall_mem_cons]
    exact ⟨hull_contains_left r s, hull_contains_right r s, List.forall_mem_nil _⟩
  · simp only [List.countP_cons, List.countP_nil, decide_eq_true_eq]
    rcases (covers_hull h x y).1 hc with hr | hs
    · rw [if_pos hr, if_neg (not_covers_of_aligned h hr)]
    · rw [if_pos hs, if_neg fun hr => not_covers_of_aligned h hr hs]

/-- No cell of two aligned rectangles is counted twice. -/
theorem area_hull (h : r.Stacked s ∨ r.SideBySide s) : (r.hull s).area = r.area + s.area := by
  obtain ⟨-, -, harea⟩ := tiledBy_iff.1 (tiledBy_hull h)
  rw [← harea]
  rfl

end Rect

section
variable {s : Interpreter} {id₁ id₂ : String} {block₁ block₂ : Block}

namespace Interpreter

theorem lookup_merged (hb₁ : s.canvas.get? id₁ = some block₁)
    (hb₂ : s.canvas.get? id₂ = some block₂)
    (haligned : block₁.rect.Stacked block₂.rect ∨ block₁.rect.SideBySide block₂.rect)
    (hcounter : s.mergeCounter < 18446744073709551615) :
    (s.after (.merge id₁ id₂)).canvas.get? (toString (s.mergeCounter + 1)) =
      some (.complex (block₁.rect.hull block₂.rect) (block₁.leaves ++ block₂.leaves)) := by
  obtain ⟨hd, -⟩ := after_of_performs (.merge hb₁ hb₂ haligned (by omega))
  unfold Canvas.get?
  rw [hd.blocks]
  exact (Registry.get?_insert ..).trans (if_pos rfl)

/-- The price of a merge does not tell the operands apart. -/
theorem overflows_merge_comm (hb₁ : s.canvas.get? id₁ = some block₁)
    (hb₂ : s.canvas.get? id₂ = some block₂)
    (haligned : block₁.rect.Stacked block₂.rect ∨ block₁.rect.SideBySide block₂.rect)
    (hcounter : s.mergeCounter < 18446744073709551615) :
    s.Overflows (.merge id₁ id₂) ↔ s.Overflows (.merge id₂ id₁) := by
  have h := Performs.merge hb₁ hb₂ haligned (by omega)
  have h' := Performs.merge hb₂ hb₁ (haligned.imp Rect.Stacked.symm Rect.SideBySide.symm) (by omega)
  rw [overflows_iff_of_outcome_ok h.outcome id, overflows_iff_of_outcome_ok h'.outcome id]
  simp only [merged, Nat.max_comm]

end Interpreter

/-- For any two blocks of any state whose counter has a next number: if the price fits, they are
merged exactly if their rectangles share no cell and together have the cells of one rectangle. The
merged block has this rectangle, an area that is the sum of both areas, and the leaves of the
first block before those of the second one; the blocks are over each other or beside each other
and never both, and they can be merged in the other order as well. A block is never merged with
itself. -/
theorem accepts_merge_iff_compose (hb₁ : s.canvas.get? id₁ = some block₁)
    (hb₂ : s.canvas.get? id₂ = some block₂) (hcounter : s.mergeCounter < 18446744073709551615) :
    (¬ s.Overflows (.merge id₁ id₂) →
      (s.Accepts (.merge id₁ id₂) ↔ ∃ u, block₁.rect.Compose block₂.rect u)) ∧
    (s.Accepts (.merge id₁ id₂) →
      (∃ u, block₁.rect.Compose block₂.rect u ∧ u.area = block₁.area + block₂.area ∧
        (s.after (.merge id₁ id₂)).canvas.get? (toString (s.mergeCounter + 1)) =
          some (.complex u (block₁.leaves ++ block₂.leaves))) ∧
      Xor (block₁.rect.Stacked block₂.rect) (block₁.rect.SideBySide block₂.rect) ∧
      s.Accepts (.merge id₂ id₁)) ∧
    (id₁ = id₂ → s.RefusedAs (.merge id₁ id₂) .notMergeable) := by
  obtain ⟨haccepts, hrefused, -⟩ := Interpreter.merge_answer hb₁ hb₂ (by omega)
  have haligned (hfits : ¬ s.Overflows (.merge id₁ id₂)) : s.Accepts (.merge id₁ id₂) ↔
      block₁.rect.Stacked block₂.rect ∨ block₁.rect.SideBySide block₂.rect :=
    (haccepts hfits).trans (and_iff_left (by omega))
  refine ⟨fun hfits => (haligned hfits).trans Rect.aligned_iff, fun h => ?_, fun hid => ?_⟩
  · have hfits := Interpreter.not_overflows_of_accepts h
    have h := (haligned hfits).1 h
    refine ⟨⟨block₁.rect.hull block₂.rect, ?_, ?_, ?_⟩, ?_, ?_⟩
    · exact ⟨fun _ _ hc => Rect.not_covers_of_aligned h hc.1 hc.2, Rect.covers_hull h⟩
    · exact Rect.area_hull h
    · exact Interpreter.lookup_merged hb₁ hb₂ h hcounter
    · exact (xor_iff_or_and_not_and _ _).2 ⟨h, fun hboth => hboth.1.not_sideBySide hboth.2⟩
    · have hfits' := mt (Interpreter.overflows_merge_comm hb₁ hb₂ h hcounter).2 hfits
      obtain ⟨haccepts', -⟩ := Interpreter.merge_answer hb₂ hb₁ (by omega)
      exact (haccepts' hfits').2 ⟨h.imp Rect.Stacked.symm Rect.SideBySide.symm, by omega⟩
  · cases hid
    cases hb₁.symm.trans hb₂
    exact hrefused.2 Rect.not_aligned_self

end

/-- The two columns of a canvas make up a rectangle, and neither of them does with itself. -/
theorem accepts_merge_iff_compose_columns : ∃ c s left right,
    Canvas.blank (.ofCoordinates 4 4) .white = .ok c ∧
      s = (Interpreter.ofCanvas c .legacy).after (.verticalCut "0" 1) ∧
        s.canvas.get? "0.0" = some left ∧ s.canvas.get? "0.1" = some right ∧
        (∃ u, right.rect.Compose left.rect u) ∧ s.Accepts (.merge "0.0" "0.1") ∧
          s.RefusedAs (.merge "0.0" "0.0") .notMergeable := by
  obtain ⟨c, hc⟩ : ∃ c, Canvas.blank (.ofCoordinates 4 4) .white = .ok c := ⟨_, rfl⟩
  obtain ⟨s, hs⟩ : ∃ s, s = (Interpreter.ofCanvas c .legacy).after (.verticalCut "0" 1) :=
    ⟨_, rfl⟩
  have hids : "0.0" ∈ s.canvas.ids ∧ "0.1" ∈ s.canvas.ids := by
    cases hc
    rw [hs]
    decide +kernel
  have hcounter : s.mergeCounter < 18446744073709551615 := by
    cases hc
    rw [hs]
    decide +kernel
  have haccepts : s.Accepts (.merge "0.1" "0.0") := by
    cases hc
    rw [hs]
    decide +kernel
  obtain ⟨left, hleft⟩ := Canvas.exists_get? hids.1
  obtain ⟨right, hright⟩ := Canvas.exists_get? hids.2
  obtain ⟨hiff, hjoined, -⟩ := accepts_merge_iff_compose hright hleft hcounter
  obtain ⟨-, -, hrefused⟩ := accepts_merge_iff_compose hleft hleft hcounter
  have hcompose := (hiff (Interpreter.not_overflows_of_accepts haccepts)).1 haccepts
  exact ⟨c, s, left, right, hc, hs, hleft, hright, hcompose, (hjoined haccepts).2.2,
    hrefused rfl⟩

end Easel
