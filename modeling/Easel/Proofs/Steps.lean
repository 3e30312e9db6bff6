import Easel.Proofs.Outcome

/-!
# Steps and runs

`Performs` says all that a successful instruction can do, with one case for each
kind of step and its guards spelled out; the three cuts share a case, since the
pieces are all that tells them apart. `performs_of_outcome` and `Performs.outcome` make
it the inversion of `outcome`, so no proof about a step unfolds it again.

`after` is the state that an instruction leaves, whether it is carried out, refused
or stopped by an overflow of the prices. A run is a fold of `after`, and what one
step keeps the run keeps (`foldl_after_induction`).
-/

namespace Easel.Interpreter

/-- All that a successful instruction can do. -/
inductive Performs (s : Interpreter) : Instruction → Outcome → Prop
  | inert {i : Instruction} (h : i.Inert) :
      Performs s i { cost := 0, blocks := s.canvas.blocks, counter := s.mergeCounter }
  | colour {id : String} {c : Rgba} {block : Block} (hb : s.canvas.get? id = some block) :
      Performs s (.colour id c) (s.recoloured id c block)
  | cut {i : Instruction} {id : String} {block : Block} {pieces : List Block}
      (hi : i.cut? = some (id, pieces.length)) (hb : s.canvas.get? id = some block)
      (hp : block.Cut i pieces) : Performs s i (s.cutInto i.kind id block pieces)
  | swap {id₁ id₂ : String} {block₁ block₂ new₁ new₂ : Block}
      (hb₁ : s.canvas.get? id₁ = some block₁) (hb₂ : s.canvas.get? id₂ = some block₂)
      (hsize : block₁.size = block₂.size) (hnew₁ : block₂.relocated block₁.rect = .ok new₁)
      (hnew₂ : block₁.relocated block₂.rect = .ok new₂) :
      Performs s (.swap id₁ id₂) (s.swapped id₁ id₂ block₁ new₁ new₂)
  | merge {id₁ id₂ : String} {block₁ block₂ : Block}
      (hb₁ : s.canvas.get? id₁ = some block₁) (hb₂ : s.canvas.get? id₂ = some block₂)
      (haligned : block₁.rect.Stacked block₂.rect ∨ block₁.rect.SideBySide block₂.rect)
      (hcounter : s.mergeCounter + 1 < 18446744073709551616) :
      Performs s (.merge id₁ id₂) (s.merged id₁ id₂ block₁ block₂)

variable {s : Interpreter} {i : Instruction} {o : Outcome} {e : Error}

theorem ite_throw_eq_ok_iff {p : Prop} [Decidable p] {x : Except Error Outcome} :
    (if p then x else throw e) = .ok o ↔ p ∧ x = .ok o := by
  by_cases h : p
  · simp [h]
  · simp [h, throw, throwThe, MonadExceptOf.throw]

/-- A line that cuts a block in two meets it. -/
theorem lineOutcome_eq_ok_iff {id : String} {axis : Axis} {position : Coordinate} :
    s.lineOutcome id axis position = .ok o ↔
      ∃ block pieces, s.canvas.get? id = some block ∧ block.cutLine axis position = .ok pieces ∧
        o = s.cutInto (Edit.cutKind axis) id block pieces.toList := by
  simp only [lineOutcome, bind_eq_ok_iff, Canvas.block_eq_ok_iff, ite_throw_eq_ok_iff, pure,
    Except.pure, Except.ok.injEq]
  constructor
  · intro h
    obtain ⟨block, hb, -, pieces, hp, rfl⟩ := h
    exact ⟨block, pieces, hb, hp, rfl⟩
  · intro h
    obtain ⟨block, pieces, hb, hp, rfl⟩ := h
    obtain ⟨hl, hh⟩ := Block.exists_cutLine_iff.1 ⟨pieces, hp⟩
    exact ⟨block, hb, ⟨by omega, by omega⟩, pieces, hp, rfl⟩

theorem performs_of_outcome (h : s.outcome i = .ok o) : s.Performs i o := by
  cases i with
  | blank =>
    cases h
    exact .inert trivial
  | comment text =>
    cases h
    exact .inert trivial
  | colour id c =>
    simp only [outcome, bind_eq_ok_iff, Canvas.block_eq_ok_iff, pure, Except.pure,
      Except.ok.injEq] at h
    obtain ⟨block, hb, rfl⟩ := h
    exact .colour hb
  | pointCut id point =>
    simp only [outcome, bind_eq_ok_iff, Canvas.block_eq_ok_iff, ite_throw_eq_ok_iff, pure,
      Except.pure, Except.ok.injEq] at h
    obtain ⟨block, hb, -, pieces, hp, rfl⟩ := h
    exact .cut rfl hb (.point id hp)
  | verticalCut id x =>
    obtain ⟨block, pieces, hb, hp, rfl⟩ := lineOutcome_eq_ok_iff.1 h
    exact .cut rfl hb (.vertical id hp)
  | horizontalCut id y =>
    obtain ⟨block, pieces, hb, hp, rfl⟩ := lineOutcome_eq_ok_iff.1 h
    exact .cut rfl hb (.horizontal id hp)
  | swap id₁ id₂ =>
    simp only [outcome, bind_eq_ok_iff, Canvas.block_eq_ok_iff, ite_throw_eq_ok_iff, pure,
      Except.pure, Except.ok.injEq] at h
    obtain ⟨block₁, hb₁, block₂, hb₂, hsize, new₁, hnew₁, new₂, hnew₂, rfl⟩ := h
    exact .swap hb₁ hb₂ hsize hnew₁ hnew₂
  | merge id₁ id₂ =>
    simp only [outcome, bind_eq_ok_iff, Canvas.block_eq_ok_iff, ite_throw_eq_ok_iff, pure,
      Except.pure, Except.ok.injEq] at h
    obtain ⟨block₁, hb₁, block₂, hb₂, haligned, hcounter, rfl⟩ := h
    exact .merge hb₁ hb₂ haligned hcounter

theorem Performs.outcome (h : s.Performs i o) : s.outcome i = .ok o := by
  cases h with
  | inert hi => exact Edit.outcome_of_inert hi
  | colour hb =>
    simp only [Interpreter.outcome, bind_eq_ok_iff, Canvas.block_eq_ok_iff]
    exact ⟨_, hb, rfl⟩
  | cut hi hb hp =>
    cases hp with
    | point id hp =>
      cases hi
      simp only [Interpreter.outcome, bind_eq_ok_iff, Canvas.block_eq_ok_iff, ite_throw_eq_ok_iff]
      exact ⟨_, hb, Block.exists_cutPoint_iff.1 ⟨_, hp⟩, _, hp, rfl⟩
    | vertical id hp =>
      cases hi
      exact lineOutcome_eq_ok_iff.2 ⟨_, _, hb, hp, rfl⟩
    | horizontal id hp =>
      cases hi
      exact lineOutcome_eq_ok_iff.2 ⟨_, _, hb, hp, rfl⟩
  | swap hb₁ hb₂ hsize hnew₁ hnew₂ =>
    simp only [Interpreter.outcome, bind_eq_ok_iff, Canvas.block_eq_ok_iff, ite_throw_eq_ok_iff]
    exact ⟨_, hb₁, _, hb₂, hsize, _, hnew₁, _, hnew₂, rfl⟩
  | merge hb₁ hb₂ haligned hcounter =>
    simp only [Interpreter.outcome, bind_eq_ok_iff, Canvas.block_eq_ok_iff, ite_throw_eq_ok_iff]
    exact ⟨_, hb₁, _, hb₂, haligned, hcounter, rfl⟩

/-- What a step that works has done. -/
theorem performs_of_apply {cost : Nat} {t : Interpreter} (h : Edit.apply i s = .ok cost t) :
    ∃ o, s.Performs i o ∧ s.canvas.Rearranged o.blocks t.canvas ∧ t.mergeCounter = o.counter := by
  cases ho : s.outcome i with
  | error e =>
    rw [Edit.apply_of_outcome_error ho] at h
    cases h
  | ok o =>
    obtain ⟨d, hd, hok | ⟨-, hover⟩⟩ := Edit.apply_of_outcome_ok ho
    · rw [hok] at h
      cases h
      exact ⟨o, performs_of_outcome ho, hd, rfl⟩
    · rw [hover] at h
      cases h

/-- What is refused has no outcome, and nothing has happened. -/
theorem outcome_of_refused {t : Interpreter} (h : Edit.apply i s = .error (.refused e) t) :
    s.outcome i = .error e ∧ t = s := by
  cases ho : s.outcome i with
  | error f =>
    rw [Edit.apply_of_outcome_error ho] at h
    cases h
    exact ⟨rfl, rfl⟩
  | ok o =>
    obtain ⟨d, -, hok | ⟨-, hover⟩⟩ := Edit.apply_of_outcome_ok ho
    · rw [hok] at h
      cases h
    · rw [hover] at h
      cases h

/-! ## Runs -/

/-- The state after an instruction, also where it fails. -/
def after (s : Interpreter) (i : Instruction) : Interpreter :=
  match Edit.apply i s with
  | .ok _ t => t
  | .error _ t => t

/-- The instruction is carried out. -/
def Accepts (s : Interpreter) (i : Instruction) : Prop :=
  match Edit.apply i s with
  | .ok _ _ => True
  | .error _ _ => False

instance (s : Interpreter) (i : Instruction) : Decidable (s.Accepts i) :=
  match h : Edit.apply i s with
  | .ok _ _ => isTrue (by simp only [Accepts, h])
  | .error _ _ => isFalse (by simp only [Accepts, h, not_false_eq_true])

theorem accepts_iff : s.Accepts i ↔ ∃ cost, Edit.apply i s = .ok cost (s.after i) := by
  unfold Accepts after
  cases Edit.apply i s with
  | ok cost t => exact ⟨fun _ => ⟨cost, rfl⟩, fun _ => trivial⟩
  | error f t => exact ⟨False.elim, fun ⟨_, h⟩ => by cases h⟩

/-- A step that works leads to the state that it leaves. -/
theorem after_of_apply {cost : Nat} {t : Interpreter} (h : Edit.apply i s = .ok cost t) :
    s.after i = t := by
  unfold after
  rw [h]

/-- What can be evaluated of a step that works. -/
theorem exists_apply_of_accepts {P : Interpreter → Prop} (h : s.Accepts i ∧ P (s.after i)) :
    ∃ cost t, Edit.apply i s = .ok cost t ∧ P t := by
  obtain ⟨cost, hcost⟩ := accepts_iff.1 h.1
  exact ⟨cost, _, hcost, h.2⟩

theorem after_of_outcome_error (h : s.outcome i = .error e) : s.after i = s := by
  unfold after
  rw [Edit.apply_of_outcome_error h]

theorem after_of_performs (h : s.Performs i o) :
    s.canvas.Rearranged o.blocks (s.after i).canvas ∧ (s.after i).mergeCounter = o.counter := by
  obtain ⟨d, hd, hok | ⟨-, hover⟩⟩ := Edit.apply_of_outcome_ok h.outcome
  · rw [after_of_apply hok]
    exact ⟨hd, rfl⟩
  · unfold after
    rw [hover]
    exact ⟨hd, rfl⟩

/-- What every successful step keeps, a run keeps. -/
theorem foldl_after_induction {P : Interpreter → Prop} (hs : P s)
    (hstep : ∀ (t u : Interpreter) (i : Instruction) (o : Outcome), P t → t.Performs i o →
      t.canvas.Rearranged o.blocks u.canvas → u.mergeCounter = o.counter → P u)
    (is : List Instruction) : P (is.foldl after s) := by
  induction is generalizing s with
  | nil => exact hs
  | cons i is ih =>
    refine ih ?_
    cases ho : s.outcome i with
    | error e => rwa [after_of_outcome_error ho]
    | ok o =>
      have hp := performs_of_outcome ho
      obtain ⟨hd, hc⟩ := after_of_performs hp
      exact hstep s _ i o hs hp hd hc

end Easel.Interpreter
