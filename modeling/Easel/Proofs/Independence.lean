import Easel.Proofs.Board
import Easel.Proofs.Conservation
import Easel.Proofs.Spelling

/-!
# Instructions that do not meet

What an instruction does depends on little: on the blocks that it names, on the size of the
canvas and the table of prices, and, for a merge, on the counter (`Agrees`). On states that
agree on these it is refused for the same cause, or takes away the same names and puts down
the same blocks (`Agrees.alike`). And it touches little: the names that it is given, the
pieces of a block that it cuts, and the next number (`Touches`); everything else is left as
it was (`after_frame`).

Two instructions with different operands touch different names, since the names of pieces and
the next number are new. So neither sees what the other one does, and the order in which they
come shows in nothing but the order of the blocks, which a partition does not let through to
the picture.

Main statement: `order_of_independent`.
-/

namespace Easel

/-! ## Exchanges of entries -/

namespace Registry

variable {α : Type} {r r' : Registry α} {k : String}

theorem get?_foldl_erase (ids : List String) :
    (ids.foldl erase r).get? k = if k ∈ ids then none else r.get? k := by
  induction ids generalizing r with
  | nil => rfl
  | cons id ids ih =>
    rw [List.foldl_cons, ih, get?_erase]
    by_cases hk : k = id <;> by_cases hmem : k ∈ ids <;> simp [hk, hmem]

theorem get?_insertAll_congr (h : r.get? k = r'.get? k) (es : List (String × α)) :
    (r.insertAll es).get? k = (r'.insertAll es).get? k := by
  induction es generalizing r r' with
  | nil => exact h
  | cons e es ih =>
    refine ih ?_
    rw [get?_insert, get?_insert, h]

/-- Registries with the same values under the same names differ in the order only. -/
theorem perm_of_get?_eq (h : ∀ k, r.get? k = r'.get? k) : r.entries.Perm r'.entries := by
  have hmem : ∀ {r r' : Registry α}, (∀ k, r.get? k = r'.get? k) →
      ∀ e ∈ r.entries, e ∈ r'.entries := by
    intro r r' h e he
    have hget := get?_of_mem he
    rw [h] at hget
    exact mem_of_get?_eq_some hget
  refine (List.perm_ext_iff_of_nodup (.of_map _ r.nodup) (.of_map _ r'.nodup)).2 fun e => ?_
  exact ⟨hmem h e, hmem (fun k => (h k).symm) e⟩

end Registry

/-- Names to be taken away and blocks to be put down. -/
structure Exchange where
  drops : List String
  puts : List (String × Block)

namespace Exchange

variable {x y : Exchange} {r r' : Registry Block} {k : String}

/-- The blocks after an exchange. -/
def carryOut (x : Exchange) (r : Registry Block) : Registry Block :=
  (x.drops.foldl Registry.erase r).insertAll x.puts

/-- The exchange concerns the name. -/
def Concerns (x : Exchange) (k : String) : Prop :=
  k ∈ x.drops ∨ k ∈ x.puts.map (·.1)

theorem get?_carryOut_of_not_concerns (h : ¬ x.Concerns k) : (x.carryOut r).get? k = r.get? k := by
  rw [Concerns, not_or] at h
  rw [carryOut, Registry.get?_insertAll_of_not_mem h.2, Registry.get?_foldl_erase, if_neg h.1]

/-- What stands under a name afterwards depends on nothing but what stood there before. -/
theorem get?_carryOut_congr (h : r.get? k = r'.get? k) :
    (x.carryOut r).get? k = (x.carryOut r').get? k := by
  refine Registry.get?_insertAll_congr ?_ x.puts
  rw [Registry.get?_foldl_erase, Registry.get?_foldl_erase, h]

/-- Exchanges that concern no name both can be carried out in either order. -/
theorem get?_carryOut_comm (h : ∀ k, x.Concerns k → ¬ y.Concerns k) :
    (y.carryOut (x.carryOut r)).get? k = (x.carryOut (y.carryOut r)).get? k := by
  by_cases hx : x.Concerns k
  · have hy : (y.carryOut r).get? k = r.get? k := get?_carryOut_of_not_concerns (h k hx)
    rw [get?_carryOut_of_not_concerns (h k hx)]
    exact get?_carryOut_congr hy.symm
  · have hx' : (x.carryOut r).get? k = r.get? k := get?_carryOut_of_not_concerns hx
    rw [get?_carryOut_of_not_concerns hx]
    exact get?_carryOut_congr hx'

end Exchange

/-! ## What an instruction sees and touches -/

namespace Interpreter

variable {s s' : Interpreter} {i j : Instruction} {k : String}

/-- All that an instruction looks at is the same in both states. -/
structure Agrees (s s' : Interpreter) (i : Instruction) : Prop where
  table : s'.table = s.table
  size : s'.canvas.size = s.canvas.size
  operands : ∀ id ∈ i.operands, s'.canvas.get? id = s.canvas.get? id
  counter : i.kind = .merge → s'.mergeCounter = s.mergeCounter

theorem Agrees.refl (s : Interpreter) (i : Instruction) : s.Agrees s i :=
  ⟨rfl, rfl, fun _ _ => rfl, fun _ => rfl⟩

theorem Agrees.block_eq (h : s.Agrees s' i) (id : String) (hid : id ∈ i.operands) :
    s'.canvas.block id = s.canvas.block id := by
  unfold Canvas.block
  rw [h.operands id hid]

theorem Agrees.priceOf_eq (h : s.Agrees s' i) (kind : Instruction.Kind) (operand : Nat) :
    s'.priceOf kind operand = s.priceOf kind operand := by
  unfold priceOf Canvas.area
  rw [h.table, h.size]

/-- The instruction is given the name or may put a block under it. -/
inductive Touches (s : Interpreter) (i : Instruction) : String → Prop
  | operand {id : String} (hid : id ∈ i.operands) : Touches s i id
  | piece {id : String} {n m : Nat} (hi : i.cut? = some (id, n)) (hm : m < n) :
      Touches s i (Edit.pieceId id m)
  | number (hi : i.kind = .merge) (hlt : s.mergeCounter + 1 < 18446744073709551616) :
      Touches s i (toString (s.mergeCounter + 1))

/-- What an instruction makes of two states is the same: the same refusal, or the same price
for the same exchange. -/
inductive Alike (s s' : Interpreter) (i : Instruction) :
    Except Error Outcome → Except Error Outcome → Prop
  | refused (e : Error) : Alike s s' i (.error e) (.error e)
  | done {o o' : Outcome} (x : Exchange) (advance : Nat) (hx : ∀ k, x.Concerns k → s.Touches i k)
      (hadvance : i.kind ≠ .merge → advance = 0) (hcost : o'.cost = o.cost)
      (hblocks : o.blocks = x.carryOut s.canvas.blocks)
      (hblocks' : o'.blocks = x.carryOut s'.canvas.blocks)
      (hcounter : o.counter = s.mergeCounter + advance)
      (hcounter' : o'.counter = s'.mergeCounter + advance) : Alike s s' i (.ok o) (.ok o')

theorem Alike.bind {α : Type} {x : Except Error α} {f g : α → Except Error Outcome}
    (h : ∀ a, s.Alike s' i (f a) (g a)) : s.Alike s' i (x >>= f) (x >>= g) := by
  cases x with
  | error e => exact .refused e
  | ok a => exact h a

theorem Alike.ite {p : Prop} [Decidable p] {e : Error} {g g' : Except Error Outcome}
    (h : p → s.Alike s' i g g') :
    s.Alike s' i (if p then g else throw e) (if p then g' else throw e) := by
  by_cases hp : p
  · rw [if_pos hp, if_pos hp]
    exact h hp
  · rw [if_neg hp, if_neg hp]
    exact .refused e

theorem Agrees.alike_cutInto (h : s.Agrees s' i) {id : String} {block : Block}
    {pieces : List Block} (hi : i.cut? = some (id, pieces.length)) (hid : id ∈ i.operands) :
    s.Alike s' i (.ok (s.cutInto i.kind id block pieces)) (.ok (s'.cutInto i.kind id block pieces))
      := by
  refine .done ⟨[id], pieceEntries id pieces⟩ 0 (fun k hk => ?_) (fun _ => rfl) (h.priceOf_eq _ _)
    rfl rfl rfl rfl
  rcases hk with hk | hk
  · rw [List.mem_singleton.1 hk]
    exact .operand hid
  · rw [names_pieceEntries] at hk
    obtain ⟨m, hm, rfl⟩ := List.mem_map.1 hk
    exact .piece hi (List.mem_range.1 hm)

/-- On states that agree on what it looks at, an instruction does the same. -/
theorem Agrees.alike (h : s.Agrees s' i) : s.Alike s' i (s.outcome i) (s'.outcome i) := by
  have hinert {i : Instruction} : s.Alike s' i
      (.ok { cost := 0, blocks := s.canvas.blocks, counter := s.mergeCounter })
      (.ok { cost := 0, blocks := s'.canvas.blocks, counter := s'.mergeCounter }) :=
    .done ⟨[], []⟩ 0 (fun k hk => by simp [Exchange.Concerns] at hk) (fun _ => rfl) rfl rfl rfl rfl
      rfl
  cases i with
  | blank => exact hinert
  | comment text => exact hinert
  | colour id c =>
    simp only [outcome, h.block_eq id List.mem_cons_self]
    refine .bind fun block => .done ⟨[], [(id, .simple { rect := block.rect, fill := .solid c })]⟩ 0
      (fun k hk => ?_) (fun _ => rfl) (h.priceOf_eq _ _) rfl rfl rfl rfl
    exact .operand (hk.resolve_left List.not_mem_nil)
  | pointCut id point =>
    simp only [outcome, h.block_eq id List.mem_cons_self]
    refine .bind fun block => .ite fun _ => .bind fun pieces => ?_
    exact h.alike_cutInto rfl List.mem_cons_self
  | verticalCut id x =>
    simp only [outcome, lineOutcome, h.block_eq id List.mem_cons_self]
    refine .bind fun block => .ite fun _ => .bind fun pieces => ?_
    exact h.alike_cutInto rfl List.mem_cons_self
  | horizontalCut id y =>
    simp only [outcome, lineOutcome, h.block_eq id List.mem_cons_self]
    refine .bind fun block => .ite fun _ => .bind fun pieces => ?_
    exact h.alike_cutInto rfl List.mem_cons_self
  | swap id₁ id₂ =>
    simp only [outcome, h.block_eq id₁ List.mem_cons_self,
      h.block_eq id₂ (List.mem_cons_of_mem _ List.mem_cons_self)]
    refine .bind fun block₁ => .bind fun block₂ => .ite fun _ => .bind fun new₁ =>
      .bind fun new₂ => .done ⟨[], [(id₁, new₁), (id₂, new₂)]⟩ 0 (fun k hk => ?_) (fun _ => rfl)
        (h.priceOf_eq _ _) rfl rfl rfl rfl
    exact .operand (hk.resolve_left List.not_mem_nil)
  | merge id₁ id₂ =>
    have hcounter : s'.mergeCounter = s.mergeCounter := h.counter rfl
    simp only [outcome, h.block_eq id₁ List.mem_cons_self,
      h.block_eq id₂ (List.mem_cons_of_mem _ List.mem_cons_self), hcounter]
    refine .bind fun block₁ => .bind fun block₂ => .ite fun _ => .ite fun hlt => ?_
    refine .done ⟨[id₁, id₂], [(toString (s.mergeCounter + 1),
      .complex (block₁.rect.hull block₂.rect) (block₁.leaves ++ block₂.leaves))]⟩ 1 (fun k hk => ?_)
      (fun hi => absurd rfl hi) (h.priceOf_eq _ _) rfl ?_ rfl rfl
    · rcases hk with hk | hk
      · exact .operand hk
      · rw [List.mem_singleton.1 hk]
        exact .number rfl hlt
    · rw [← hcounter]
      rfl

/-! ## Steps whose prices fit -/

/-- The price of the instruction does not fit into the sum of all prices. -/
def Overflows (s : Interpreter) (i : Instruction) : Prop :=
  ∃ kind t, Edit.apply i s = .error (.overflow kind) t

theorem not_overflows_of_accepts (h : s.Accepts i) : ¬ s.Overflows i := by
  intro hover
  obtain ⟨kind, t, ht⟩ := hover
  obtain ⟨cost, hcost⟩ := accepts_iff.1 h
  rw [ht] at hcost
  cases hcost

/-- What is heard of an instruction: its price, or why it is not carried out. -/
def answer (s : Interpreter) (i : Instruction) : Except Failure Nat :=
  match Edit.apply i s with
  | .ok cost _ => .ok cost
  | .error f _ => .error f

theorem answer_of_outcome_error {e : Error} (h : s.outcome i = .error e) :
    s.answer i = .error (.refused e) := by
  unfold answer
  rw [Edit.apply_of_outcome_error h]

/-- An instruction that is carried out and paid. -/
theorem answer_of_outcome_ok {o : Outcome} (h : s.outcome i = .ok o) (hfits : ¬ s.Overflows i) :
    s.answer i = .ok o.cost ∧ (s.after i).totalCost = s.totalCost + o.cost := by
  obtain ⟨d, -, hok | ⟨-, hover⟩⟩ := Edit.apply_of_outcome_ok h
  · unfold answer after
    rw [hok]
    exact ⟨rfl, rfl⟩
  · exact absurd ⟨_, _, hover⟩ hfits

theorem Alike.answer_eq (h : s.Alike s' i (s.outcome i) (s'.outcome i)) (hfits : ¬ s.Overflows i)
    (hfits' : ¬ s'.Overflows i) : s'.answer i = s.answer i := by
  generalize ho : s.outcome i = o at h
  generalize ho' : s'.outcome i = o' at h
  cases h with
  | refused e => rw [answer_of_outcome_error ho, answer_of_outcome_error ho']
  | done x advance hx hadvance hcost _ _ _ _ =>
    rw [(answer_of_outcome_ok ho hfits).1, (answer_of_outcome_ok ho' hfits').1, hcost]

/-- The table of prices stays what it is. -/
theorem table_after (s : Interpreter) (i : Instruction) : (s.after i).table = s.table := by
  cases ho : s.outcome i with
  | error e => rw [after_of_outcome_error ho]
  | ok o =>
    obtain ⟨d, -, hok | ⟨-, hover⟩⟩ := Edit.apply_of_outcome_ok ho
    · rw [after_of_apply hok]
    · unfold after
      rw [hover]

/-- Whatever an instruction does not touch, it leaves alone. -/
theorem after_frame (s : Interpreter) (i : Instruction) :
    (s.after i).canvas.size = s.canvas.size ∧ (s.after i).canvas.source = s.canvas.source ∧
      (∀ k, ¬ s.Touches i k → (s.after i).canvas.get? k = s.canvas.get? k) ∧
        (i.kind ≠ .merge → (s.after i).mergeCounter = s.mergeCounter) := by
  have halike := (Agrees.refl s i).alike
  cases ho : s.outcome i with
  | error e =>
    rw [after_of_outcome_error ho]
    exact ⟨rfl, rfl, fun _ _ => rfl, fun _ => rfl⟩
  | ok o =>
    obtain ⟨hd, hcounter⟩ := after_of_performs (performs_of_outcome ho)
    rw [ho] at halike
    cases halike with
    | done x advance hx hadvance _ hblocks _ hcounter' _ =>
      refine ⟨hd.size, hd.source, fun k hk => ?_, fun hi => ?_⟩
      · rw [Canvas.get?, hd.blocks, hblocks]
        exact Exchange.get?_carryOut_of_not_concerns fun hc => hk (hx k hc)
      · rw [hcounter, hcounter', hadvance hi, Nat.add_zero]

end Interpreter

/-! ## Two instructions -/

/-- Two instructions name blocks that are there, and no block is named by both; at most one of
them is a merge. -/
structure Interpreter.Apart (s : Interpreter) (i j : Instruction) : Prop where
  left : ∀ id ∈ i.operands, id ∈ s.canvas.ids
  right : ∀ id ∈ j.operands, id ∈ s.canvas.ids
  disjoint : ∀ id ∈ i.operands, id ∉ j.operands
  merge : i.kind ≠ .merge ∨ j.kind ≠ .merge

theorem Instruction.mem_operands_of_cut? {i : Instruction} {id : String} {n : Nat}
    (h : i.cut? = some (id, n)) : id ∈ i.operands := by
  cases i <;> cases h <;> exact List.mem_cons_self

namespace Interpreter.Apart

variable {s : Interpreter} {i j : Instruction} {k : String}

theorem symm (h : s.Apart i j) : s.Apart j i :=
  ⟨h.right, h.left, fun id hj hi => h.disjoint id hi hj, h.merge.symm⟩

/-- An operand of the one is not touched by the other. -/
theorem not_touches_operand (h : s.Apart i j) (hclear : Clear s.canvas.ids s.mergeCounter)
    (hk : k ∈ i.operands) : ¬ s.Touches j k := by
  intro ht
  cases ht with
  | operand hj => exact h.disjoint k hk hj
  | piece hj hm =>
    have hid := h.right _ (Instruction.mem_operands_of_cut? hj)
    exact hclear.not_mem_of_pieceOf hid (pieceOf_of_cut? hj hm) (h.left _ hk)
  | number hj hlt => exact (hclear.fresh _ (Nat.lt_succ_self _) hlt _ (h.left _ hk)).1 rfl

/-- No name is touched by both. -/
theorem not_touches (h : s.Apart i j) (hclear : Clear s.canvas.ids s.mergeCounter)
    (hk : s.Touches i k) : ¬ s.Touches j k := by
  intro ht
  cases hk with
  | operand hi => exact h.not_touches_operand hclear hi ht
  | @piece id n m hi hm =>
    have hpiece := pieceOf_of_cut? hi hm
    generalize hk : Edit.pieceId id m = k at ht hpiece
    cases ht with
    | operand hj => exact h.symm.not_touches_operand hclear hj (hk ▸ .piece hi hm)
    | piece hj hm' =>
      -- a piece tells which block it comes from
      have heq := hpiece.unique (pieceOf_of_cut? hj hm')
      subst heq
      exact h.disjoint _ (Instruction.mem_operands_of_cut? hi) (Instruction.mem_operands_of_cut? hj)
    | number hj hlt => exact not_pieceOf_toString _ _ hpiece
  | number hi hlt =>
    generalize hk : toString (s.mergeCounter + 1) = k at ht
    cases ht with
    | operand hj => exact h.symm.not_touches_operand hclear hj (hk ▸ .number hi hlt)
    | piece hj hm => exact not_pieceOf_toString _ _ (hk ▸ pieceOf_of_cut? hj hm)
    | number hj hlt' => exact h.merge.elim (absurd hi) (absurd hj)

/-- After the one, the other sees what it saw before. -/
theorem agrees_after (h : s.Apart i j) (hclear : Clear s.canvas.ids s.mergeCounter) :
    s.Agrees (s.after j) i := by
  obtain ⟨hsize, -, hget, hcounter⟩ := s.after_frame j
  refine ⟨s.table_after j, hsize, fun id hid => hget id (h.not_touches_operand hclear hid), ?_⟩
  intro hi
  exact hcounter fun hj => h.merge.elim (absurd hi) (absurd hj)

/-- If both are carried out, the order shows only in the order of the blocks. -/
theorem after_comm (h : s.Apart i j) (hclear : Clear s.canvas.ids s.mergeCounter)
    (hi : ¬ s.Overflows i) (hij : ¬ (s.after i).Overflows j) (hj : ¬ s.Overflows j)
    (hji : ¬ (s.after j).Overflows i) :
    (∀ k, ((s.after i).after j).canvas.get? k = ((s.after j).after i).canvas.get? k) ∧
      ((s.after i).after j).totalCost = ((s.after j).after i).totalCost ∧
        ((s.after i).after j).mergeCounter = ((s.after j).after i).mergeCounter := by
  have hi' := (h.agrees_after hclear).alike
  have hj' := (h.symm.agrees_after hclear).alike
  generalize hoi : s.outcome i = oi at hi'
  generalize hoi' : (s.after j).outcome i = oi' at hi'
  generalize hoj : s.outcome j = oj at hj'
  generalize hoj' : (s.after i).outcome j = oj' at hj'
  cases hi' with
  | refused e =>
    rw [after_of_outcome_error hoi, after_of_outcome_error hoi']
    exact ⟨fun _ => rfl, rfl, rfl⟩
  | @done o o' x advance hx _ hcost hblocks hblocks' hcounter hcounter' =>
    cases hj' with
    | refused e =>
      rw [after_of_outcome_error hoj, after_of_outcome_error hoj']
      exact ⟨fun _ => rfl, rfl, rfl⟩
    | @done p p' y advance₂ hy _ hcost₂ hblocks₂ hblocks₂' hcounter₂ hcounter₂' =>
      obtain ⟨hd, hc⟩ := after_of_performs (performs_of_outcome hoi)
      obtain ⟨hd', hc'⟩ := after_of_performs (performs_of_outcome hoi')
      obtain ⟨hd₂, hc₂⟩ := after_of_performs (performs_of_outcome hoj)
      obtain ⟨hd₂', hc₂'⟩ := after_of_performs (performs_of_outcome hoj')
      have htotal := (answer_of_outcome_ok hoi hi).2
      have htotal' := (answer_of_outcome_ok hoi' hji).2
      have htotal₂ := (answer_of_outcome_ok hoj hj).2
      have htotal₂' := (answer_of_outcome_ok hoj' hij).2
      refine ⟨fun k => ?_, by omega, by omega⟩
      rw [Canvas.get?, Canvas.get?, hd₂'.blocks, hblocks₂', hd.blocks, hblocks, hd'.blocks,
        hblocks', hd₂.blocks, hblocks₂]
      exact Exchange.get?_carryOut_comm fun k hk hk' =>
        h.not_touches hclear (hx k hk) (hy k hk')

end Interpreter.Apart

/-! ## The picture -/

/-- A partitioned canvas is separated. -/
theorem Interpreter.Sound.separated {size : Point} {s : Interpreter} (h : s.Sound size) :
    s.canvas.Separated where
  disjoint _ he _ he' hne _ _ hc hc' :=
    hne (h.eq_of_covers (Registry.get?_of_mem he') (Registry.get?_of_mem he) hc' hc)
  inside e he := (h.tessellated.tiled e he).inside

/-- On a partitioned canvas the order of the blocks is not seen. -/
theorem Canvas.Separated.seenAlike {c d : Canvas} (h : c.Separated)
    (hget : ∀ k, c.get? k = d.get? k) : c.SeenAlike d := by
  intro α g _ x y
  rw [h.seenAt_leaves g (Registry.perm_of_get?_eq hget), Easel.seenAt_leaves]

/-- On a canvas that began blank, after any instructions: two instructions whose operands are
there may come in either order, if no block is an operand of both, at most one of the two is a
merge, and the prices fit into the sum. Each of them is answered in the same way before and
after the other one, with its price or the cause of its refusal, and in the end the same blocks
stand under the same names, as much has been paid, the counter is the same, and the same frame
is drawn. -/
theorem order_of_independent {size : Point} {background : Rgba} {c : Canvas}
    (hc : Canvas.blank size background = .ok c) (table : CostTable) (is : List Instruction)
    {s : Interpreter} (hs : s = is.foldl Interpreter.after (.ofCanvas c table))
    {i j : Instruction} (h : s.Apart i j) (hi : ¬ s.Overflows i)
    (hij : ¬ (s.after i).Overflows j) (hj : ¬ s.Overflows j) (hji : ¬ (s.after j).Overflows i) :
    (s.after j).answer i = s.answer i ∧ (s.after i).answer j = s.answer j ∧
      let t := (s.after i).after j
      let u := (s.after j).after i
      (∀ k, t.canvas.get? k = u.canvas.get? k) ∧ t.totalCost = u.totalCost ∧
        t.mergeCounter = u.mergeCounter ∧
          ∀ threading f, t.canvas.draw threading = .ok f ↔ u.canvas.draw threading = .ok f := by
  obtain ⟨bare, hbare, -⟩ := bind_eq_ok_iff.1 hc
  obtain ⟨d, hd, hsize, -, hentries⟩ := Canvas.exists_blank (Canvas.of_bare hbare).1 background
  rw [hc] at hd
  cases hd
  have hsound : s.Sound size := by
    rw [hs]
    exact (Interpreter.sound_ofCanvas table hsize ⟨_, hentries⟩).foldl_after is
  have hclear := hsound.clear
  obtain ⟨hget, htotal, hcounter⟩ := h.after_comm hclear hi hij hj hji
  refine ⟨(h.agrees_after hclear).alike.answer_eq hi hji,
    (h.symm.agrees_after hclear).alike.answer_eq hj hij, hget, htotal, hcounter, ?_⟩
  intro threading f
  have hsep : ((s.after i).after j).canvas.Separated := (hsound.foldl_after [i, j]).separated
  have hsep' : ((s.after j).after i).canvas.Separated := (hsound.foldl_after [j, i]).separated
  obtain ⟨hsize₁, hsource₁, -⟩ := s.after_frame i
  obtain ⟨hsize₂, hsource₂, -⟩ := (s.after i).after_frame j
  obtain ⟨hsize₁', hsource₁', -⟩ := s.after_frame j
  obtain ⟨hsize₂', hsource₂', -⟩ := (s.after j).after_frame i
  have hsize' : ((s.after j).after i).canvas.size = ((s.after i).after j).canvas.size := by
    rw [hsize₂', hsize₁', hsize₂, hsize₁]
  have hsource' : ((s.after j).after i).canvas.source = ((s.after i).after j).canvas.source := by
    rw [hsource₂', hsource₁', hsource₂, hsource₁]
  have hseen : ((s.after i).after j).canvas.SeenAlike ((s.after j).after i).canvas :=
    hsep.seenAlike hget
  have hseen' : ((s.after j).after i).canvas.SeenAlike ((s.after i).after j).canvas := hseen.symm
  exact ⟨hseen.draw_eq_ok hsize' hsource' (Canvas.contains_bounds_of_mem_leaves hsep.inside),
    hseen'.draw_eq_ok hsize'.symm hsource'.symm
      (Canvas.contains_bounds_of_mem_leaves hsep'.inside)⟩

theorem order_of_independent_merge_and_cut : ∃ c s,
    Canvas.blank (.ofCoordinates 4 4) .white = .ok c ∧
      s = [.pointCut "0" (.ofCoordinates 2 2)].foldl Interpreter.after (.ofCanvas c .legacy) ∧
        let i := Instruction.merge "0.0" "0.1"
        let j := Instruction.verticalCut "0.2" 3
        s.Accepts i ∧ s.Accepts j ∧
          (s.after j).answer i = s.answer i ∧ (s.after i).answer j = s.answer j ∧
          let t := (s.after i).after j
          let u := (s.after j).after i
          t.canvas.ids ≠ u.canvas.ids ∧ (∀ k, t.canvas.get? k = u.canvas.get? k) ∧
            t.totalCost = u.totalCost ∧ t.mergeCounter = u.mergeCounter ∧
              ∀ threading f, t.canvas.draw threading = .ok f ↔ u.canvas.draw threading = .ok f := by
  obtain ⟨c, hc⟩ : ∃ c, Canvas.blank (.ofCoordinates 4 4) .white = .ok c := ⟨_, rfl⟩
  obtain ⟨s, hs⟩ : ∃ s, s = [.pointCut "0" (.ofCoordinates 2 2)].foldl Interpreter.after
    (.ofCanvas c .legacy) := ⟨_, rfl⟩
  have haccepts : (s.Accepts (.merge "0.0" "0.1") ∧ s.Accepts (.verticalCut "0.2" 3)) ∧
      (s.after (.merge "0.0" "0.1")).Accepts (.verticalCut "0.2" 3) ∧
        (s.after (.verticalCut "0.2" 3)).Accepts (.merge "0.0" "0.1") := by
    cases hc
    rw [hs]
    decide +kernel
  have hids : s.canvas.ids = ["0.0", "0.1", "0.2", "0.3"] ∧
      ((s.after (.merge "0.0" "0.1")).after (.verticalCut "0.2" 3)).canvas.ids ≠
        ((s.after (.verticalCut "0.2" 3)).after (.merge "0.0" "0.1")).canvas.ids := by
    cases hc
    rw [hs]
    decide +kernel
  have hapart : s.Apart (.merge "0.0" "0.1") (.verticalCut "0.2" 3) := by
    refine ⟨?_, ?_, by decide, .inr nofun⟩
    · rw [hids.1]
      decide
    · rw [hids.1]
      decide
  obtain ⟨⟨hi, hj⟩, hij, hji⟩ := haccepts
  obtain ⟨hanswer, hanswer', hend⟩ := order_of_independent hc .legacy _ hs hapart
    (Interpreter.not_overflows_of_accepts hi) (Interpreter.not_overflows_of_accepts hij)
    (Interpreter.not_overflows_of_accepts hj) (Interpreter.not_overflows_of_accepts hji)
  exact ⟨c, s, hc, hs, hi, hj, hanswer, hanswer', hids.2, hend⟩

end Easel
