import Easel.Proofs.Provenance
import Easel.Proofs.Refusals

/-!
# A cut at a point as cuts along lines

A block is cut in four by one cut at a point, or by a cut along the vertical line through the
point and a cut of both pieces along the horizontal one. The pieces are the same, since a
quarter of a block is a part of a part (`Block.cutPoint_eq_ok_iff_cutLine`). The names are not: a
point cut counts round the point, from the lower left piece to the upper left one, and the line
cuts count every pair from the lower end. What is left to show is that no name of the shorter
way is met on the longer one (`exists_apply_cut`).

Main statement: `pointCut_eq_lineCuts`.
-/

namespace Easel

theorem pieceId_ne_self (id : String) (n : Nat) : Edit.pieceId id n ≠ id := by
  intro h
  have hlength := congrArg (·.toList.length) h
  simp only [toList_pieceId, List.length_append, List.length_cons] at hlength
  omega

/-- A piece of a piece is no piece of the block. -/
theorem not_pieceOf_pieceId_pieceId {id : String} {m n : Nat} (hn : n < 4) :
    ¬ PieceOf id (Edit.pieceId (Edit.pieceId id m) n) :=
  fun h => pieceId_ne_self id m (PieceOf.unique ⟨n, hn, rfl⟩ h)

/-- The cuts along the two lines through a point: the vertical one through a block, and the
horizontal one through both pieces. -/
def Instruction.quartering (id : String) (p : Point) : List Instruction :=
  [.verticalCut id (p.along .x), .horizontalCut (Edit.pieceId id 0) (p.along .y),
    .horizontalCut (Edit.pieceId id 1) (p.along .y)]

namespace Interpreter

/-- Each price fits into the sum when the instructions come one after another. -/
def Affords : Interpreter → List Instruction → Prop
  | _, [] => True
  | s, i :: is => ¬ s.Overflows i ∧ (s.after i).Affords is

variable {s : Interpreter} {id : String} {block : Block} {p : Point}

/-- Where the names of the pieces are new, a cut takes one entry away and adds others. -/
theorem exists_apply_cut {i : Instruction} {pieces : List Block}
    (hi : i.cut? = some (id, pieces.length)) (hb : s.canvas.get? id = some block)
    (hp : block.Cut i pieces) (hnew : ∀ m < pieces.length, Edit.pieceId id m ∉ s.canvas.ids)
    (hfits : ¬ s.Overflows i) :
    ∃ cost t, t = s.after i ∧ Edit.apply i s = .ok cost t ∧
      s.canvas.Rearranged t.canvas.blocks t.canvas ∧ t.mergeCounter = s.mergeCounter ∧
      t.canvas.blocks.entries = (s.canvas.blocks.erase id).entries ++ pieceEntries id pieces ∧
      ∀ k ∈ t.canvas.ids, k ∈ s.canvas.ids ∨ PieceOf id k := by
  have hperforms := Performs.cut hi hb hp
  have hn := Instruction.le_four_of_cut? hi
  obtain ⟨hd, hcounter⟩ := after_of_performs hperforms
  obtain ⟨cost, hcost⟩ := accepts_iff.1 (accepts_of_outcome_ok hperforms.outcome hfits)
  refine ⟨cost, _, rfl, hcost, ⟨hd.size, hd.background, hd.source, rfl⟩, hcounter, ?_, ?_⟩
  · rw [hd.blocks]
    exact entries_insertAll_pieceEntries hn fun m hm hmem =>
      hnew m hm (Registry.mem_names_erase.1 hmem).1
  · intro k hk
    rw [Canvas.ids, hd.blocks] at hk
    exact (Registry.mem_names_insertAll.1 hk).imp (fun hk => (Registry.mem_names_erase.1 hk).1)
      (pieceOf_of_mem_pieceEntries hn)

end Interpreter

/-- From any state, for any block, of one leaf or of several ones of any kind: if the point lies
strictly inside the block, no name of a piece is there yet and all prices fit, then the cut at the
point is carried out, and so are the three cuts along the lines through it. They leave the same
four pieces, with the same leaves in the same order, under the names that belong to each other,
and the same other blocks before them; nothing else has changed. -/
theorem pointCut_eq_lineCuts {s : Interpreter} {id : String} {block : Block} {p : Point}
    (hb : s.canvas.get? id = some block) (hp : p.StrictlyInside block.rect)
    (hnew : ∀ m < 4, Edit.pieceId id m ∉ s.canvas.ids)
    (hnew' : ∀ m < 2, ∀ n < 2, Edit.pieceId (Edit.pieceId id m) n ∉ s.canvas.ids)
    (hfits : s.Affords [.pointCut id p]) (hfits' : s.Affords (Instruction.quartering id p)) :
    let rest := (s.canvas.blocks.erase id).entries
    let name := Edit.pieceId
    ∃ sum t sum' u, ∃ pieces : Quarters Block,
      s.CarriesOut [.pointCut id p] sum t ∧ s.CarriesOut (Instruction.quartering id p) sum' u ∧
      t.canvas.blocks.entries = rest ++
        [(name id 0, pieces.bottomLeft), (name id 1, pieces.bottomRight),
          (name id 2, pieces.topRight), (name id 3, pieces.topLeft)] ∧
      u.canvas.blocks.entries = rest ++
        [(name (name id 0) 0, pieces.bottomLeft), (name (name id 0) 1, pieces.topLeft),
          (name (name id 1) 0, pieces.bottomRight), (name (name id 1) 1, pieces.topRight)] ∧
      s.canvas.Rearranged t.canvas.blocks t.canvas ∧
      s.canvas.Rearranged u.canvas.blocks u.canvas ∧
      t.mergeCounter = s.mergeCounter ∧ u.mergeCounter = s.mergeCounter := by
  intro rest name
  obtain ⟨pieces, hcut⟩ := Block.exists_cutPoint_iff.2 hp
  obtain ⟨halves, hhalves, hleft, hright⟩ := Block.cutPoint_eq_ok_iff_cutLine.1 hcut
  obtain ⟨cost, t, -, ht, hd, hcounter, hentries, -⟩ :=
    Interpreter.exists_apply_cut rfl hb (.point id hcut) hnew hfits.1
  obtain ⟨hfits₁, hfits₂, hfits₃, -⟩ := hfits'
  -- the vertical line
  obtain ⟨cost₁, t₁, hafter₁, ht₁, hd₁, hcounter₁, hentries₁, hids₁⟩ :=
    Interpreter.exists_apply_cut rfl hb (.vertical id hhalves)
      (fun m hm => hnew m (Nat.lt_trans hm (show 2 < 4 by decide))) hfits₁
  rw [← hafter₁] at hfits₂ hfits₃
  have hnew₁ : ∀ m < 2, ∀ n < 2, name (name id m) n ∉ t₁.canvas.ids := by
    intro m hm n hn hmem
    rcases hids₁ _ hmem with hmem | hpiece
    · exact hnew' m hm n hn hmem
    · exact not_pieceOf_pieceId_pieceId (by omega) hpiece
  -- the horizontal line through the left piece
  have hget₁ : t₁.canvas.get? (name id 0) = some halves.low := by
    refine Registry.get?_of_mem (e := (name id 0, halves.low)) ?_
    rw [hentries₁]
    exact List.mem_append_right _ List.mem_cons_self
  obtain ⟨cost₂, t₂, hafter₂, ht₂, hd₂, hcounter₂, hentries₂, hids₂⟩ :=
    Interpreter.exists_apply_cut rfl hget₁ (.horizontal _ hleft) (hnew₁ 0 (by decide)) hfits₂
  rw [← hafter₂] at hfits₃
  rw [Registry.entries_erase_of_append hentries₁, List.append_assoc] at hentries₂
  -- the horizontal line through the right piece
  have hget₂ : t₂.canvas.get? (name id 1) = some halves.high := by
    refine Registry.get?_of_mem (e := (name id 1, halves.high)) ?_
    rw [hentries₂]
    exact List.mem_append_right _ List.mem_cons_self
  have hnew₂ : ∀ n < 2, name (name id 1) n ∉ t₂.canvas.ids := by
    intro n hn hmem
    rcases hids₂ _ hmem with hmem | hpiece
    · exact hnew₁ 1 (by decide) n hn hmem
    · have hsame : name id 1 = name id 0 := PieceOf.unique ⟨n, by omega, rfl⟩ hpiece
      exact absurd (pieceId_inj (by decide) (by decide) hsame).2 (by decide)
  obtain ⟨cost₃, u, -, ht₃, hd₃, hcounter₃, hentries₃, -⟩ :=
    Interpreter.exists_apply_cut rfl hget₂ (.horizontal _ hright) hnew₂ hfits₃
  rw [Registry.entries_erase_of_append hentries₂, List.append_assoc] at hentries₃
  exact ⟨_, t, _, u, pieces, .cons ht (.nil t), .cons ht₁ (.cons ht₂ (.cons ht₃ (.nil u))),
    hentries, hentries₃, hd, (hd₁.trans hd₂).trans hd₃, hcounter,
    hcounter₃.trans (hcounter₂.trans hcounter₁)⟩

/-- A block that is joined of two colours and cut in four around a point beside the seam. -/
theorem pointCut_eq_lineCuts_joined :
    let p := Point.ofCoordinates 1 3
    ∃ c s sum t sum' u, Canvas.blank (.ofCoordinates 4 4) .white = .ok c ∧
      s = [.verticalCut "0" 2, .colour "0.0" .transparent, .merge "0.1" "0.0"].foldl
        Interpreter.after (.ofCanvas c .legacy) ∧
        s.CarriesOut [.pointCut "1" p] sum t ∧
          s.CarriesOut (Instruction.quartering "1" p) sum' u ∧
            t.canvas.blocks.values[1]? = u.canvas.blocks.values[2]? ∧
              t.canvas.blocks.values[3]? = u.canvas.blocks.values[1]? := by
  intro p
  obtain ⟨c, hc⟩ : ∃ c, Canvas.blank (.ofCoordinates 4 4) .white = .ok c := ⟨_, rfl⟩
  obtain ⟨s, hs⟩ : ∃ s, s = [.verticalCut "0" 2, .colour "0.0" .transparent,
    .merge "0.1" "0.0"].foldl Interpreter.after (.ofCanvas c .legacy) := ⟨_, rfl⟩
  obtain ⟨block, hb, hp⟩ : ∃ block ∈ s.canvas.get? "1", p.StrictlyInside block.rect := by
    cases hc
    rw [hs]
    decide +kernel
  have hids : s.canvas.ids = ["1"] ∧ (s.canvas.blocks.erase "1").entries = [] := by
    cases hc
    rw [hs]
    decide +kernel
  have haccepts : s.Accepts (.pointCut "1" p) ∧ s.Accepts (.verticalCut "1" (p.along .x)) ∧
      (s.after (.verticalCut "1" (p.along .x))).Accepts
        (.horizontalCut (Edit.pieceId "1" 0) (p.along .y)) ∧
      ((s.after (.verticalCut "1" (p.along .x))).after
        (.horizontalCut (Edit.pieceId "1" 0) (p.along .y))).Accepts
          (.horizontalCut (Edit.pieceId "1" 1) (p.along .y)) := by
    cases hc
    rw [hs]
    decide +kernel
  obtain ⟨hpoint, hfirst, hsecond, hthird⟩ := haccepts
  obtain ⟨sum, t, sum', u, pieces, ht, hu, hentries, hentries', -⟩ :=
    pointCut_eq_lineCuts hb hp (by rw [hids.1]; decide) (by rw [hids.1]; decide)
      ⟨Interpreter.not_overflows_of_accepts hpoint, trivial⟩
      ⟨Interpreter.not_overflows_of_accepts hfirst, Interpreter.not_overflows_of_accepts hsecond,
        Interpreter.not_overflows_of_accepts hthird, trivial⟩
  refine ⟨c, s, sum, t, sum', u, hc, hs, ht, hu, ?_, ?_⟩
  · unfold Registry.values
    rw [hentries, hentries', hids.2]
    rfl
  · unfold Registry.values
    rw [hentries, hentries', hids.2]
    rfl

end Easel
