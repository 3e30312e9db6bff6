import Easel.Proofs.Partition
import Easel.Proofs.Spelling

/-!
# What a step leaves alone

A registry keeps a value that replaces another in its place, closes the gap where an entry is
taken away and puts a new name last. So where a block ends up in the paint order depends on
whether its name is there already. On a canvas that began blank no name that a step makes ever
is, and the step can be told in full: the names that it takes away (`Instruction.removes`) leave
a gap, those that it makes (`Interpreter.adds`) go to the end (`NamesBecome`), and every block
that it does not name stays what it is and where it is (`LocalStep`).

That other blocks stay needs no look at their places. Entries under other names do not notice an
insertion or a removal (`Registry.filter_entries_insert`), and a step works under no names but
its operands and those that it makes (`Performs.filter_entries`).

Main statement: `localStep_of_apply`.
-/

namespace Easel

/-- The names that an instruction takes from the canvas. -/
def Instruction.removes : Instruction → List String
  | .pointCut id _ | .verticalCut id _ | .horizontalCut id _ => [id]
  | .merge id₁ id₂ => [id₁, id₂]
  | _ => []

namespace Interpreter

/-- The names that an instruction makes: those of the pieces in the order of their numbers, or
the next number. -/
def adds (s : Interpreter) : Instruction → List String
  | .pointCut id _ => (List.range 4).map (Edit.pieceId id)
  | .verticalCut id _ | .horizontalCut id _ => (List.range 2).map (Edit.pieceId id)
  | .merge _ _ => [toString (s.mergeCounter + 1)]
  | _ => []

/-- The instruction leaves these names: some of its operands go, and new names come last. -/
structure NamesBecome (s : Interpreter) (i : Instruction) (names : List String) : Prop where
  eq : names = s.canvas.ids.filter (· ∉ i.removes) ++ s.adds i
  /-- A merge takes away two blocks, not one. -/
  nodup : i.removes.Nodup
  mem : ∀ id ∈ i.removes, id ∈ s.canvas.ids
  new : ∀ id ∈ s.adds i, id ∉ s.canvas.ids

/-- The step from `s` to `t` touches nothing but the blocks that its instruction names. -/
structure LocalStep (s : Interpreter) (i : Instruction) (t : Interpreter) : Prop where
  size : t.canvas.size = s.canvas.size
  background : t.canvas.background = s.canvas.background
  source : t.canvas.source = s.canvas.source
  /-- Old blocks under other names are what they were, in the order in which they were. -/
  others : t.canvas.blocks.entries.filter (fun e => e.1 ∈ s.canvas.ids ∧ e.1 ∉ i.operands)
    = s.canvas.blocks.entries.filter (fun e => e.1 ∉ i.operands)
  ids : s.NamesBecome i t.canvas.ids

end Interpreter

/-! ## Names -/

section
variable {s : Interpreter} {i : Instruction} {o : Outcome} {id : String} {n : Nat}

theorem Instruction.removes_of_cut? (h : i.cut? = some (id, n)) : i.removes = [id] := by
  cases i <;> cases h <;> rfl

theorem Instruction.operands_of_cut? (h : i.cut? = some (id, n)) : i.operands = [id] := by
  cases i <;> cases h <;> rfl

theorem Interpreter.adds_of_cut? (h : i.cut? = some (id, n)) :
    s.adds i = (List.range n).map (Edit.pieceId id) := by
  cases i <;> cases h <;> rfl

theorem Interpreter.namesBecome_of_removes_eq_nil (hremoves : i.removes = [])
    (hadds : s.adds i = []) : s.NamesBecome i s.canvas.ids where
  eq := by simp [hremoves, hadds]
  nodup := by simp [hremoves]
  mem := by simp [hremoves]
  new := by simp [hadds]

/-- The names that were not there before are those that the step makes. -/
theorem Interpreter.NamesBecome.filter_eq_adds {names : List String}
    (h : s.NamesBecome i names) : names.filter (· ∉ s.canvas.ids) = s.adds i := by
  have hold : (s.canvas.ids.filter (· ∉ i.removes)).filter (· ∉ s.canvas.ids) = [] := by
    refine List.filter_eq_nil_iff.2 fun k hk => ?_
    simpa using (List.mem_filter.1 hk).1
  have hnew : (s.adds i).filter (· ∉ s.canvas.ids) = s.adds i :=
    List.filter_eq_self.2 fun k hk => decide_eq_true (h.new k hk)
  rw [h.eq, List.filter_append, hold, hnew, List.nil_append]

/-- A merge needs nothing but that the next number is new. -/
theorem Interpreter.namesBecome_merged {id₁ id₂ : String} {block₁ block₂ : Block}
    (hb₁ : s.canvas.get? id₁ = some block₁) (hb₂ : s.canvas.get? id₂ = some block₂)
    (haligned : block₁.rect.Stacked block₂.rect ∨ block₁.rect.SideBySide block₂.rect)
    (hnew : toString (s.mergeCounter + 1) ∉ s.canvas.ids) :
    s.NamesBecome (.merge id₁ id₂) (s.merged id₁ id₂ block₁ block₂).blocks.names := by
  have hnames : (s.merged id₁ id₂ block₁ block₂).blocks.names
      = ((s.canvas.blocks.erase id₁).erase id₂).names ++ [toString (s.mergeCounter + 1)] := by
    rw [Registry.names, entries_merged hnew, List.map_append]
    rfl
  have hmem₂ := Registry.mem_names_of_get? (get?_erase_of_aligned hb₁ hb₂ haligned)
  obtain ⟨hmem₂, hne⟩ := Registry.mem_names_erase.1 hmem₂
  constructor
  · rw [hnames, Registry.names_erase, Registry.names_erase, List.filter_filter]
    simp [Instruction.removes, adds, Canvas.ids, Bool.and_comm]
  · exact List.nodup_cons.2 ⟨by simpa using hne.symm, List.nodup_singleton id₂⟩
  · intro k hk
    rcases List.mem_pair.1 hk with rfl | rfl
    · exact Registry.mem_names_of_get? hb₁
    · exact hmem₂
  · intro k hk
    rw [List.mem_singleton.1 hk]
    exact hnew

/-- The names after a step, where they were clear. -/
theorem Clear.namesBecome (h : Clear s.canvas.ids s.mergeCounter) (hp : s.Performs i o) :
    s.NamesBecome i o.blocks.names := by
  cases hp with
  | inert hi =>
    cases i with
    | blank => exact Interpreter.namesBecome_of_removes_eq_nil rfl rfl
    | comment text => exact Interpreter.namesBecome_of_removes_eq_nil rfl rfl
    | _ => exact hi.elim
  | colour hb =>
    rw [Interpreter.recoloured, Registry.names_insert_of_get? hb]
    exact Interpreter.namesBecome_of_removes_eq_nil rfl rfl
  | swap hb₁ hb₂ hsize hnew₁ hnew₂ =>
    rw [Interpreter.names_swapped hb₁ hb₂]
    exact Interpreter.namesBecome_of_removes_eq_nil rfl rfl
  | @cut _ id block pieces hi hb hp =>
    obtain ⟨hnew, hentries⟩ := h.performs_cut hb (Instruction.le_four_of_cut? hi)
    have hnames : (s.cutInto i.kind id block pieces).blocks.names
        = (s.canvas.blocks.erase id).names ++ (pieceEntries id pieces).map (·.1) := by
      rw [Registry.names, Interpreter.cutInto, hentries, List.map_append]
      rfl
    have hremoves := Instruction.removes_of_cut? hi
    have hadds : s.adds i = _ := Interpreter.adds_of_cut? hi
    constructor
    · rw [hnames, hremoves, hadds, Registry.names_erase, names_pieceEntries]
      simp only [List.mem_singleton, Canvas.ids]
    · rw [hremoves]
      exact List.nodup_singleton id
    · intro k hk
      rw [hremoves] at hk
      rw [List.mem_singleton.1 hk]
      exact Registry.mem_names_of_get? hb
    · intro k hk
      rw [hadds] at hk
      obtain ⟨m, hm, rfl⟩ := List.mem_map.1 hk
      exact hnew m (List.mem_range.1 hm)
  | merge hb₁ hb₂ haligned hcounter =>
    exact Interpreter.namesBecome_merged hb₁ hb₂ haligned (h.numbersFree.not_mem_succ hcounter)

/-! ## Entries under other names -/

/-- Entries under names that a step is neither given nor makes are left alone. -/
theorem Interpreter.Performs.filter_entries {p : String → Bool} (hp : s.Performs i o)
    (hoperands : ∀ k ∈ i.operands, p k = false) (hadds : ∀ k ∈ s.adds i, p k = false) :
    o.blocks.entries.filter (p ·.1) = s.canvas.blocks.entries.filter (p ·.1) := by
  cases hp with
  | inert hi => rfl
  | colour hb => exact Registry.filter_entries_insert (hoperands _ List.mem_cons_self) ..
  | @cut _ id block pieces hi hb hp =>
    rw [Instruction.operands_of_cut? hi] at hoperands
    rw [Interpreter.adds_of_cut? hi, ← names_pieceEntries] at hadds
    have hpieces : ∀ e ∈ pieceEntries id pieces, p e.1 = false :=
      fun e he => hadds _ (List.mem_map_of_mem he)
    exact (Registry.filter_entries_insertAll hpieces _).trans
      (Registry.filter_entries_erase (hoperands id List.mem_cons_self) _)
  | swap hb₁ hb₂ hsize hnew₁ hnew₂ =>
    have h₁ := hoperands _ List.mem_cons_self
    have h₂ := hoperands _ (List.mem_cons_of_mem _ List.mem_cons_self)
    exact (Registry.filter_entries_insert h₂ ..).trans (Registry.filter_entries_insert h₁ ..)
  | merge hb₁ hb₂ haligned hcounter =>
    have h₁ := hoperands _ List.mem_cons_self
    have h₂ := hoperands _ (List.mem_cons_of_mem _ List.mem_cons_self)
    have hnew := hadds _ List.mem_cons_self
    exact (Registry.filter_entries_insert hnew ..).trans
      ((Registry.filter_entries_erase h₂ _).trans (Registry.filter_entries_erase h₁ _))

/-! ## Steps -/

/-- A step that makes no name twice is local. -/
theorem Interpreter.Performs.localStep (hp : s.Performs i o) (hids : s.NamesBecome i o.blocks.names)
    {t : Interpreter} (hd : s.canvas.Rearranged o.blocks t.canvas) : s.LocalStep i t := by
  have hothers := hp.filter_entries (p := fun k => k ∈ s.canvas.ids ∧ k ∉ i.operands)
    (fun k hk => by simp [hk]) (fun k hk => by simp [hids.new k hk])
  refine ⟨hd.size, hd.background, hd.source, ?_, ?_⟩
  · rw [hd.blocks, hothers]
    refine List.filter_congr fun e he => ?_
    have hmem : e.1 ∈ s.canvas.ids := List.mem_map_of_mem he
    simp only [hmem, true_and]
  · rw [Canvas.ids, hd.blocks]
    exact hids

end

/-- On a canvas that began blank, after any instructions, whatever is carried out next touches
nothing but the blocks that it names. Size, background and source image stay. Every other block
keeps its name, its rectangle and its leaves with their colours, and these blocks keep their
paint order. A colour and a swap leave the names in place; a cut takes away the block that is cut
and puts its pieces last, in the order of their numbers; a merge takes away its two blocks and
puts the new one last. -/
theorem localStep_of_apply {size : Point} {background : Rgba} {c : Canvas}
    (hc : Canvas.blank size background = .ok c) (table : CostTable) (is : List Instruction)
    {s t : Interpreter} (hs : s = is.foldl Interpreter.after (.ofCanvas c table))
    {i : Instruction} {cost : Nat} (h : Edit.apply i s = .ok cost t) : s.LocalStep i t := by
  obtain ⟨hsize, hentries⟩ := Canvas.of_blank hc
  have hclear : Clear s.canvas.ids s.mergeCounter := by
    rw [hs]
    exact ((Interpreter.sound_ofCanvas table hsize ⟨_, hentries⟩).foldl_after is).clear
  obtain ⟨o, hp, hd, -⟩ := Interpreter.performs_of_apply h
  exact hp.localStep (hclear.namesBecome hp) hd

/-- The block that is cut stands between two others. -/
theorem localStep_of_apply_between : ∃ c s cost t,
    Canvas.blank (.ofCoordinates 4 4) .white = .ok c ∧
      s = [.verticalCut "0" 2, .horizontalCut "0.0" 2].foldl Interpreter.after
        (.ofCanvas c .legacy) ∧
        Edit.apply (.pointCut "0.0.0" (.ofCoordinates 1 1)) s = .ok cost t ∧
          s.LocalStep (.pointCut "0.0.0" (.ofCoordinates 1 1)) t ∧
            t.canvas.ids = ["0.1", "0.0.1", "0.0.0.0", "0.0.0.1", "0.0.0.2", "0.0.0.3"] := by
  obtain ⟨c, hc⟩ : ∃ c, Canvas.blank (.ofCoordinates 4 4) .white = .ok c := ⟨_, rfl⟩
  obtain ⟨s, hs⟩ : ∃ s, s = [.verticalCut "0" 2, .horizontalCut "0.0" 2].foldl Interpreter.after
    (.ofCanvas c .legacy) := ⟨_, rfl⟩
  have hids : s.canvas.ids = ["0.1", "0.0.0", "0.0.1"] := by
    cases hc
    rw [hs]
    decide +kernel
  have haccepts : s.Accepts (.pointCut "0.0.0" (.ofCoordinates 1 1)) := by
    cases hc
    rw [hs]
    decide +kernel
  obtain ⟨cost, ht⟩ := Interpreter.accepts_iff.1 haccepts
  have hlocal := localStep_of_apply hc .legacy _ hs ht
  refine ⟨c, s, cost, _, hc, hs, ht, hlocal, ?_⟩
  rw [hlocal.ids.eq, hids]
  rfl

end Easel
