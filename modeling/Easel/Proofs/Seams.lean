import Easel.Proofs.Quartering

/-!
# A cut along the seam undoes a merge

Two blocks that are merged share a whole edge, and the line along it cuts the merged block into
the two again. The leaves of both stand in one list, in the order of the operands, and some of
them touch the line. But a block keeps its leaves inside, so each leaf lies on one side of the
line as a whole and goes there as it is (`filterMap_half?_eq_self`), and none of the other block
does (`filterMap_half?_eq_nil`). Therefore the order of the operands is not to be seen in the
pieces: the one on the left or below is the first one (`Block.cutLine_joined`).

Main statement: `seamCut_undoes_merge`.
-/

namespace Easel

/-! ## The shared edge -/

/-- On the given axis `low` ends where `high` begins, and both have the same span on the other
one. -/
def Rect.Abuts (low high : Rect) : Axis → Prop
  | .x => low.topRight.x = high.bottomLeft.x ∧ low.bottomLeft.y = high.bottomLeft.y ∧
      low.topRight.y = high.topRight.y
  | .y => low.topRight.y = high.bottomLeft.y ∧ low.bottomLeft.x = high.bottomLeft.x ∧
      low.topRight.x = high.topRight.x

namespace Rect

variable {r s low high : Rect} {axis : Axis}

/-- Of two rectangles that can be merged, one ends where the other begins. -/
theorem exists_abuts_of_aligned (h : r.Stacked s ∨ r.SideBySide s) :
    ∃ axis, r.Abuts s axis ∨ s.Abuts r axis := by
  rcases h with ⟨hfit, hleft, hright⟩ | ⟨hfit, hbottom, htop⟩
  · refine ⟨.y, hfit.symm.imp (fun h => ⟨h, hleft, hright⟩) fun h => ?_⟩
    exact ⟨h.symm, hleft.symm, hright.symm⟩
  · refine ⟨.x, hfit.symm.imp (fun h => ⟨h, hbottom, htop⟩) fun h => ?_⟩
    exact ⟨h.symm, hbottom.symm, htop.symm⟩

theorem hull_comm (r s : Rect) : r.hull s = s.hull r := by
  simp only [hull, Nat.min_comm, Nat.max_comm]

theorem Abuts.seam_eq (h : low.Abuts high axis) :
    (low.topRight.along axis).val = high.low axis := by
  cases axis <;> exact h.1

/-- The line along the shared edge parts the hull into the two. -/
theorem Abuts.half?_hull (h : low.Abuts high axis) :
    (low.hull high).half? .low axis (low.topRight.along axis) = some low ∧
      (low.hull high).half? .high axis (low.topRight.along axis) = some high := by
  have hlx := low.x_lt
  have hly := low.y_lt
  have hhx := high.x_lt
  have hhy := high.y_lt
  rw [half?_eq_some_iff, half?_eq_some_iff]
  cases axis <;> simp only [Abuts] at h <;>
    simp only [hull, Half.lower, Half.upper, Point.along, Point.ext_iff] <;> omega

/-- What lies in a rectangle does not reach farther. -/
theorem Contains.not_meets {half : Half} {position : Nat} (h : r.Contains s)
    (hr : ¬ half.Meets axis position r) : ¬ half.Meets axis position s := by
  rw [contains_iff] at h
  cases half <;> cases axis <;> simp only [Half.Meets, Rect.low, Rect.high] at hr ⊢ <;> omega

end Rect

/-! ## Leaves on one side -/

section
variable {leaves : List Leaf} {half : Half} {axis : Axis} {position : Coordinate}

/-- Leaves on one side go there as they are. -/
theorem filterMap_half?_eq_self
    (h : ∀ leaf ∈ leaves, ¬ half.other.Meets axis position.val leaf.rect) :
    leaves.filterMap (·.half? half axis position) = leaves := by
  have hself : ∀ leaf ∈ leaves, leaf.half? half axis position = some leaf := fun leaf hl =>
    Leaf.half?_eq_some_iff.2 ⟨Rect.half?_eq_self (h leaf hl), rfl⟩
  rw [List.filterMap_congr hself, List.filterMap_some]

/-- Leaves on one side leave nothing on the other one. -/
theorem filterMap_half?_eq_nil (h : ∀ leaf ∈ leaves, ¬ half.Meets axis position.val leaf.rect) :
    leaves.filterMap (·.half? half axis position) = [] :=
  List.filterMap_eq_nil_iff.2 fun leaf hl =>
    Leaf.half?_eq_none_iff.2 (Rect.half?_eq_none_iff.2 (h leaf hl))

end

/-! ## The pieces of a joined block -/

namespace Block

variable {low high : Block} {axis : Axis}

/-- The leaves of two blocks that share an edge, in either order, are parted by the line along
the edge. -/
theorem cutLine_joined (habuts : low.rect.Abuts high.rect axis)
    (hlow : ∀ leaf ∈ low.leaves, low.rect.Contains leaf.rect)
    (hhigh : ∀ leaf ∈ high.leaves, high.rect.Contains leaf.rect) {leaves : List Leaf}
    (hleaves : leaves = low.leaves ++ high.leaves ∨ leaves = high.leaves ++ low.leaves) :
    (complex (low.rect.hull high.rect) leaves).cutLine axis (low.rect.topRight.along axis) =
      .ok ⟨complex low.rect low.leaves, complex high.rect high.leaves⟩ := by
  obtain ⟨hrectLow, hrectHigh⟩ := habuts.half?_hull
  have hbelow : ∀ leaf ∈ low.leaves,
      ¬ Half.high.Meets axis (low.rect.topRight.along axis).val leaf.rect := by
    refine fun leaf hl => (hlow leaf hl).not_meets ?_
    cases axis <;> exact Nat.lt_irrefl _
  have habove : ∀ leaf ∈ high.leaves,
      ¬ Half.low.Meets axis (low.rect.topRight.along axis).val leaf.rect := by
    refine fun leaf hl => (hhigh leaf hl).not_meets ?_
    rw [habuts.seam_eq]
    exact Nat.lt_irrefl _
  have hself : low.leaves.filterMap (·.half? .low axis (low.rect.topRight.along axis))
      = low.leaves := filterMap_half?_eq_self hbelow
  have hself' : high.leaves.filterMap (·.half? .high axis (low.rect.topRight.along axis))
      = high.leaves := filterMap_half?_eq_self habove
  have hparts : leaves.filterMap (·.half? .low axis (low.rect.topRight.along axis)) = low.leaves ∧
      leaves.filterMap (·.half? .high axis (low.rect.topRight.along axis)) = high.leaves := by
    rcases hleaves with rfl | rfl <;>
      simp only [List.filterMap_append, hself, hself', filterMap_half?_eq_nil hbelow,
        filterMap_half?_eq_nil habove, List.nil_append, List.append_nil, and_self]
  rw [cutLine_eq_ok_iff]
  simp only [half?, hrectLow, hrectHigh, hparts, Option.map_some, and_self]

end Block

/-! ## Merge and cut -/

namespace Instruction

theorem cut?_lineCut (axis : Axis) (id : String) (position : Coordinate) :
    (lineCut axis id position).cut? = some (id, 2) := by
  cases axis <;> rfl

end Instruction

theorem Block.cut_lineCut {block : Block} {axis : Axis} {position : Coordinate}
    {pieces : Halves Block} (id : String) (h : block.cutLine axis position = .ok pieces) :
    block.Cut (.lineCut axis id position) pieces.toList := by
  cases axis with
  | x => exact .vertical id h
  | y => exact .horizontal id h

/-- A joined block that stands last is cut along the edge, and its two parts stand last. -/
theorem Interpreter.exists_apply_seamCut {t : Interpreter}
    (hclear : Clear t.canvas.ids t.mergeCounter) {front : List (String × Block)} {id : String}
    {axis : Axis} {low high : Block} (habuts : low.rect.Abuts high.rect axis)
    (hlow : ∀ leaf ∈ low.leaves, low.rect.Contains leaf.rect)
    (hhigh : ∀ leaf ∈ high.leaves, high.rect.Contains leaf.rect) {leaves : List Leaf}
    (hleaves : leaves = low.leaves ++ high.leaves ∨ leaves = high.leaves ++ low.leaves)
    (hentries : t.canvas.blocks.entries
      = front ++ [(id, .complex (low.rect.hull high.rect) leaves)])
    (hfits : t.totalCost + t.priceOf
      (Instruction.lineCut axis id (low.rect.topRight.along axis)).kind
        (low.rect.hull high.rect).area < 18446744073709551616) :
    ∃ cost u, Edit.apply (.lineCut axis id (low.rect.topRight.along axis)) t = .ok cost u ∧
      u.canvas.blocks.entries = front ++
        [(Edit.pieceId id 0, .complex low.rect low.leaves),
          (Edit.pieceId id 1, .complex high.rect high.leaves)] := by
  have hb : t.canvas.get? id = some (.complex (low.rect.hull high.rect) leaves) := by
    refine Registry.get?_of_mem (e := (id, _)) ?_
    rw [hentries]
    exact List.mem_append_right _ List.mem_cons_self
  have hcut := Block.cutLine_joined habuts hlow hhigh hleaves
  have hnew := (hclear.performs_cut hb (show [low, high].length ≤ 4 by simp)).1
  have hi := Instruction.cut?_lineCut axis id (low.rect.topRight.along axis)
  have hpieces := Block.cut_lineCut id hcut
  have hnot := mt (overflows_iff_of_outcome_ok (Performs.cut hi hb hpieces).outcome
    (Instruction.not_inert_of_cut? hi)).1 (Nat.not_le.2 hfits)
  obtain ⟨cost, u, -, hu, -, -, hentries', -⟩ := exists_apply_cut hi hb hpieces hnew hnot
  refine ⟨cost, u, hu, ?_⟩
  rw [hentries', Registry.entries_erase_of_append hentries, List.append_nil]
  rfl

/-- On a canvas that began blank, after any instructions and a merge in either order of its
operands: one of the two blocks ends where the other begins, and the cut of the merged block along
this line is carried out if the sum of all prices still fits. The first piece has the rectangle and
the leaves of the block on the left or below, the second piece those of the other one, and both
have the leaves in their order. All other blocks are what they were before the merge. -/
theorem seamCut_undoes_merge {size : Point} {background : Rgba} {c : Canvas}
    (hc : Canvas.blank size background = .ok c) (table : CostTable) (is : List Instruction)
    {s t : Interpreter} (hs : s = is.foldl Interpreter.after (.ofCanvas c table))
    {id₁ id₂ : String} {cost : Nat} (h : Edit.apply (.merge id₁ id₂) s = .ok cost t) :
    ∃ axis low high,
      (s.canvas.get? id₁ = some low ∧ s.canvas.get? id₂ = some high ∨
        s.canvas.get? id₁ = some high ∧ s.canvas.get? id₂ = some low) ∧
      low.rect.Abuts high.rect axis ∧
      let id := toString (s.mergeCounter + 1)
      let i := Instruction.lineCut axis id (low.rect.topRight.along axis)
      t.totalCost + t.priceOf i.kind (low.rect.hull high.rect).area < 18446744073709551616 →
      ∃ cost' u, Edit.apply i t = .ok cost' u ∧
        u.canvas.blocks.entries = s.canvas.blocks.entries.filter (fun e => e.1 ∉ [id₁, id₂]) ++
          [(Edit.pieceId id 0, .complex low.rect low.leaves),
            (Edit.pieceId id 1, .complex high.rect high.leaves)] := by
  obtain ⟨hsize, hentries⟩ := Canvas.of_blank hc
  have hsound : s.Sound size := by
    rw [hs]
    exact (Interpreter.sound_ofCanvas table hsize ⟨_, hentries⟩).foldl_after is
  obtain ⟨o, hp, hd, hcounter⟩ := Interpreter.performs_of_apply h
  have hclear : Clear t.canvas.ids t.mergeCounter := by
    rw [Canvas.ids, hd.blocks, hcounter]
    exact hsound.clear.performs hp
  cases hp with
  | inert hi => exact hi.elim
  | cut hi hb hp => cases hi
  | @merge _ _ block₁ block₂ hb₁ hb₂ haligned hlt =>
    have hin₁ := (hsound.tessellated.tiled_of_get? hb₁).inside
    have hin₂ := (hsound.tessellated.tiled_of_get? hb₂).inside
    have hmerged := Interpreter.entries_merged (hsound.clear.numbersFree.not_mem_succ hlt) id₁ id₂
      block₁ block₂
    rw [← hd.blocks, Registry.entries_erase_erase] at hmerged
    obtain ⟨axis, habuts | habuts⟩ := Rect.exists_abuts_of_aligned haligned
    · exact ⟨axis, block₁, block₂, .inl ⟨hb₁, hb₂⟩, habuts,
        Interpreter.exists_apply_seamCut hclear habuts hin₁ hin₂ (.inl rfl) hmerged⟩
    · rw [Rect.hull_comm] at hmerged
      exact ⟨axis, block₂, block₁, .inr ⟨hb₁, hb₂⟩, habuts,
        Interpreter.exists_apply_seamCut hclear habuts hin₂ hin₁ (.inr rfl) hmerged⟩

/-- The upper half is named first, so its leaves stand before those of the lower one. -/
theorem seamCut_undoes_merge_upper_first : ∃ c s low high cost t cost' u,
    Canvas.blank (.ofCoordinates 4 4) .white = .ok c ∧
      s = [.horizontalCut "0" 2, .verticalCut "0.1" 1, .colour "0.1.0" .transparent,
        .merge "0.1.1" "0.1.0"].foldl Interpreter.after (.ofCanvas c .legacy) ∧
        s.canvas.get? "0.0" = some low ∧ s.canvas.get? "1" = some high ∧
          Edit.apply (.merge "1" "0.0") s = .ok cost t ∧
            Edit.apply (.horizontalCut "2" 2) t = .ok cost' u ∧
              ("2.0", .complex low.rect low.leaves) ∈ u.canvas.blocks.entries ∧
                ("2.1", .complex high.rect high.leaves) ∈ u.canvas.blocks.entries := by
  obtain ⟨c, hc⟩ : ∃ c, Canvas.blank (.ofCoordinates 4 4) .white = .ok c := ⟨_, rfl⟩
  obtain ⟨s, hs⟩ : ∃ s, s = [.horizontalCut "0" 2, .verticalCut "0.1" 1,
    .colour "0.1.0" .transparent, .merge "0.1.1" "0.1.0"].foldl Interpreter.after
      (.ofCanvas c .legacy) := ⟨_, rfl⟩
  have hrects : (∃ b ∈ s.canvas.get? "0.0", b.rect.bottomLeft = .origin ∧
      b.rect.topRight = .ofCoordinates 4 2) ∧
      ∃ b ∈ s.canvas.get? "1", b.rect.bottomLeft = .ofCoordinates 0 2 ∧
        b.rect.topRight = .ofCoordinates 4 4 := by
    cases hc
    rw [hs]
    decide +kernel
  obtain ⟨⟨lower, hlower, hbl, htr⟩, upper, hupper, hbl', htr'⟩ := hrects
  obtain ⟨cost, t, ht, hcounter, hfits⟩ : ∃ cost t,
      Edit.apply (.merge "1" "0.0") s = .ok cost t ∧ s.mergeCounter = 1 ∧
        t.totalCost + t.priceOf .horizontalCut 16 < 18446744073709551616 := by
    cases hc
    rw [hs]
    refine Interpreter.exists_apply_of_accepts ?_
    decide +kernel
  obtain ⟨axis, low, high, hget, habuts, hcut⟩ := seamCut_undoes_merge hc .legacy _ hs ht
  rw [hcounter] at hcut
  have hget' : low = lower ∧ high = upper ∧ axis = .y := by
    rcases hget with ⟨h₁, h₂⟩ | ⟨h₁, h₂⟩
    · cases hupper.symm.trans h₁
      cases hlower.symm.trans h₂
      cases axis <;> simp [Rect.Abuts, hbl, htr', Point.origin, Point.ofCoordinates] at habuts
    · cases hupper.symm.trans h₁
      cases hlower.symm.trans h₂
      cases axis
      · simp [Rect.Abuts, htr, hbl', Point.ofCoordinates] at habuts
      · exact ⟨rfl, rfl, rfl⟩
  obtain ⟨rfl, rfl, rfl⟩ := hget'
  have hseam : low.rect.topRight.along .y = 2 := by
    rw [htr]
    rfl
  have harea : (low.rect.hull high.rect).area = 16 := by
    simp only [Rect.area, Rect.size, Rect.hull, hbl, htr, hbl', htr']
    rfl
  rw [hseam, harea] at hcut
  obtain ⟨cost', u, hu, hentries⟩ := hcut hfits
  refine ⟨c, s, low, high, cost, t, cost', u, hc, hs, hlower, hupper, ht, hu, ?_, ?_⟩
  · rw [hentries]
    exact List.mem_append_right _ List.mem_cons_self
  · rw [hentries]
    exact List.mem_append_right _ (List.mem_cons_of_mem _ List.mem_cons_self)

end Easel
