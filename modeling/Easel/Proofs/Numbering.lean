import Easel.Proofs.Locality

/-!
# Numbers of merged blocks

The names of a canvas may be any texts. Those that read as numbers of 64 bits tell where the
counter begins, and reading is lenient: `+7` and `007` both read as seven, though the text of
seven is neither. It is the texts that must not meet, so what is kept is that no name is the text
of a number to come (`NumbersFree`); that a name of another kind may stand for a number beyond
the counter is then of no concern.

The names that the merges of a run bring onto the canvas are read off the canvases themselves
(`minted`). They are the numbers after the starting counter without a gap (`minted_eq`), so none
of them has been taken by a merge that failed.

Main statement: `merges_take_fresh_numbers`.
-/

namespace Easel

namespace Interpreter

/-- The names that a merge brings onto the canvas. -/
def mints (s : Interpreter) (i : Instruction) : List String :=
  if i.kind = .merge then (s.after i).canvas.ids.filter (· ∉ s.canvas.ids) else []

/-- The names that the merges of a run bring onto the canvas, one after another. -/
def minted : Interpreter → List Instruction → List String
  | _, [] => []
  | s, i :: is => s.mints i ++ (s.after i).minted is

variable {s t : Interpreter} {id₁ id₂ : String} {block₁ block₂ : Block}

theorem length_merged (hb₁ : s.canvas.get? id₁ = some block₁)
    (hb₂ : s.canvas.get? id₂ = some block₂)
    (haligned : block₁.rect.Stacked block₂.rect ∨ block₁.rect.SideBySide block₂.rect)
    (hnew : toString (s.mergeCounter + 1) ∉ s.canvas.ids) :
    (s.merged id₁ id₂ block₁ block₂).blocks.names.length + 1 = s.canvas.ids.length := by
  have hlength₁ : _ = s.canvas.ids.length := length_erase hb₁
  have hlength₂ := length_erase (get?_erase_of_aligned hb₁ hb₂ haligned)
  have hmerged := congrArg List.length (entries_merged hnew id₁ id₂ block₁ block₂)
  simp only [Registry.names, List.length_map, List.length_append, List.length_singleton] at *
  omega

/-- A merge that is carried out takes the next number. -/
theorem Performs.merge_of_numbersFree {o : Outcome} (hp : s.Performs (.merge id₁ id₂) o)
    (h : NumbersFree s.canvas.ids s.mergeCounter) :
    s.NamesBecome (.merge id₁ id₂) o.blocks.names ∧ o.counter = s.mergeCounter + 1 ∧
      o.blocks.names.length + 1 = s.canvas.ids.length := by
  cases hp with
  | inert hi => exact hi.elim
  | cut hi hb hp => cases hi
  | merge hb₁ hb₂ haligned hcounter =>
    have hnew := h.not_mem_succ hcounter
    exact ⟨namesBecome_merged hb₁ hb₂ haligned hnew, rfl, length_merged hb₁ hb₂ haligned hnew⟩

/-- A step takes the next number and brings it onto the canvas, or takes none. -/
theorem mints_cases (h : NumbersFree s.canvas.ids s.mergeCounter) (i : Instruction) :
    (s.mints i = [] ∧ (s.after i).mergeCounter = s.mergeCounter) ∨
      (s.mints i = [toString (s.mergeCounter + 1)] ∧
        (s.after i).mergeCounter = s.mergeCounter + 1) := by
  unfold mints
  cases ho : s.outcome i with
  | error e =>
    rw [after_of_outcome_error ho]
    refine .inl ⟨?_, rfl⟩
    simp
  | ok o =>
    have hp := performs_of_outcome ho
    obtain ⟨hd, hcounter⟩ := after_of_performs hp
    have hids : (s.after i).canvas.ids = o.blocks.names := congrArg Registry.names hd.blocks
    rw [hcounter, hids]
    by_cases hi : i.kind = .merge
    · obtain ⟨id₁, id₂, rfl⟩ : ∃ id₁ id₂, i = .merge id₁ id₂ := by
        cases i <;> first | exact ⟨_, _, rfl⟩ | cases hi
      obtain ⟨hnames, hnext, -⟩ := hp.merge_of_numbersFree h
      exact .inr ⟨(if_pos hi).trans hnames.filter_eq_adds, hnext⟩
    · refine .inl ⟨if_neg hi, ?_⟩
      cases hp.renames with
      | same _ _ _ hcounter => exact hcounter
      | cut _ _ hcounter _ => exact hcounter
      | merge hmerge => exact absurd hmerge hi

/-- The merges of a run bring the numbers after the counter, without a gap. -/
theorem minted_eq (h : NumbersFree s.canvas.ids s.mergeCounter) (is : List Instruction) :
    ∃ k, s.minted is = (List.range' (s.mergeCounter + 1) k).map toString ∧
      (is.foldl after s).mergeCounter = s.mergeCounter + k := by
  induction is generalizing s with
  | nil => exact ⟨0, rfl, rfl⟩
  | cons i is ih =>
    have hfree : NumbersFree (s.after i).canvas.ids (s.after i).mergeCounter := h.foldl_after [i]
    obtain ⟨k, hminted, hcounter⟩ := ih hfree
    rcases mints_cases h i with ⟨hmints, hnext⟩ | ⟨hmints, hnext⟩
    · rw [hnext] at hminted hcounter
      refine ⟨k, ?_, hcounter⟩
      rw [minted, hmints, hminted, List.nil_append]
    · rw [hnext] at hminted hcounter
      refine ⟨k + 1, ?_, ?_⟩
      · rw [minted, hmints, hminted, List.range'_succ, List.map_cons, List.singleton_append]
      · rw [List.foldl_cons, hcounter, Nat.add_assoc, Nat.add_comm 1]

end Interpreter

/-- On any canvas, whatever its names are, and after any instructions: the names that the merges of
the run have brought onto the canvas are numbers that grow from each to the next, and all of them
are larger than any name of the canvas that reads as a number of 64 bits at the start. They follow
each other without a gap up to the counter, so a merge that failed has taken none. If the next
instruction is a merge that is carried out, its number names no block before, there is one block
less after it, and no third block has changed. If it is refused, the counter stays. -/
theorem merges_take_fresh_numbers (c : Canvas) (table : CostTable) (is : List Instruction) :
    let s₀ := Interpreter.ofCanvas c table
    let s := is.foldl Interpreter.after s₀
    (∃ ns : List Nat, s₀.minted is = ns.map toString ∧ ns.Pairwise (· < ·) ∧
      (∀ n ∈ ns, ∀ id ∈ c.ids, ∀ m, Number.ofText? 18446744073709551616 id = some m → m < n) ∧
        ns = List.range' (s₀.mergeCounter + 1) (s.mergeCounter - s₀.mergeCounter)) ∧
    ∀ id₁ id₂,
      (∀ cost t, Edit.apply (.merge id₁ id₂) s = .ok cost t →
        toString (s.mergeCounter + 1) ∉ s.canvas.ids ∧ t.mergeCounter = s.mergeCounter + 1 ∧
          t.canvas.ids.length + 1 = s.canvas.ids.length ∧ s.LocalStep (.merge id₁ id₂) t) ∧
      ∀ e t, Edit.apply (.merge id₁ id₂) s = .error (.refused e) t →
        t.mergeCounter = s.mergeCounter := by
  intro s₀ s
  have hfree₀ : NumbersFree s₀.canvas.ids s₀.mergeCounter := .ofCanvas c table
  have hfree : NumbersFree s.canvas.ids s.mergeCounter := hfree₀.foldl_after is
  refine ⟨?_, fun id₁ id₂ => ⟨fun cost t h => ?_, fun e t h => ?_⟩⟩
  · obtain ⟨k, hminted, hcounter⟩ := Interpreter.minted_eq hfree₀ is
    refine ⟨_, hminted, List.pairwise_lt_range', fun n hn id hid m hm => ?_, ?_⟩
    · have hstart : m ≤ s₀.mergeCounter := Canvas.le_maxNumericId_of_ofText? hid hm
      have hlow := (List.mem_range'_1.1 hn).1
      omega
    · rw [show s.mergeCounter = s₀.mergeCounter + k from hcounter, Nat.add_sub_cancel_left]
  · obtain ⟨o, hp, hd, hcounter⟩ := Interpreter.performs_of_apply h
    obtain ⟨hnames, hnext, hlength⟩ := hp.merge_of_numbersFree hfree
    refine ⟨hnames.new _ List.mem_cons_self, hcounter.trans hnext, ?_, hp.localStep hnames hd⟩
    rw [Canvas.ids, hd.blocks]
    exact hlength
  · rw [(Interpreter.outcome_of_refused h).2]

/-- Two names that read as seven, a name with a point, and a number that does not fit 64 bits. -/
theorem merges_take_fresh_numbers_lenient :
    let layout : Layout :=
      { size := .ofCoordinates 4 1
        presets :=
          [{ id := "+7", bottomLeft := .origin, topRight := .ofCoordinates 1 1,
             colour := some .white },
           { id := "007", bottomLeft := .ofCoordinates 1 0, topRight := .ofCoordinates 2 1,
             colour := some .white },
           { id := "0.5", bottomLeft := .ofCoordinates 2 0, topRight := .ofCoordinates 3 1,
             colour := some .white },
           { id := "18446744073709551616", bottomLeft := .ofCoordinates 3 0,
             topRight := .ofCoordinates 4 1, colour := some .white }] }
    ∃ c s cost t, Canvas.ofLayout layout = .ok c ∧
      s = [.merge "+7" "007", .merge "0.5" "0.5"].foldl Interpreter.after
        (.ofCanvas c .legacy) ∧
        Edit.apply (.merge "0.5" "8") s = .ok cost t ∧ s.LocalStep (.merge "0.5" "8") t ∧
          t.canvas.ids = ["18446744073709551616", "9"] := by
  intro layout
  obtain ⟨c, hc⟩ : ∃ c, Canvas.ofLayout layout = .ok c := ⟨_, rfl⟩
  obtain ⟨s, hs⟩ : ∃ s, s = [.merge "+7" "007", .merge "0.5" "0.5"].foldl Interpreter.after
    (.ofCanvas c .legacy) := ⟨_, rfl⟩
  have hids : s.canvas.ids = ["0.5", "18446744073709551616", "8"] ∧ s.mergeCounter = 8 := by
    cases hc
    rw [hs]
    decide +kernel
  have haccepts : s.Accepts (.merge "0.5" "8") := by
    cases hc
    rw [hs]
    decide +kernel
  obtain ⟨cost, ht⟩ := Interpreter.accepts_iff.1 haccepts
  have hmerges := (merges_take_fresh_numbers c .legacy [.merge "+7" "007", .merge "0.5" "0.5"]).2
  rw [← hs] at hmerges
  have hlocal := ((hmerges "0.5" "8").1 cost _ ht).2.2.2
  refine ⟨c, s, cost, _, hc, hs, ht, hlocal, ?_⟩
  rw [hlocal.ids.eq, hids.1, Interpreter.adds, hids.2]
  rfl

end Easel
