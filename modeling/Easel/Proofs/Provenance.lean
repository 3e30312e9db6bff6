import Easel.Proofs.Reprinting
import Easel.Proofs.Steps

/-!
# Where a run stops, and what it leaves

A program is read as a whole before anything is done, so the first malformed line is reported
whatever else is wrong, then a canvas that cannot be built, and only then an instruction. The
instructions are carried out until the first one that fails. `Interpreter.CarriesOut` tells of
instructions that are carried out one after another, with the sum of their prices, and knows
nothing of lines, of blank lines or of a sum that is carried along. `Interpreter.Runs` says with
it how a run goes, to its end or up to a line that fails, and every run goes so (`runs_run`).

Main statement: `run_of_text`.
-/

namespace Easel

open Text

/-! ## Malformed lines -/

/-- The text of a line is no instruction: it is neither blank nor a comment, and it spells
nothing. -/
structure Malformed (cs : List Char) : Prop where
  not_blank : ∃ c ∈ cs, ¬ IsBlank c
  not_comment : (trimStart cs).head? ≠ some '#'
  not_spells : ¬ ∃ i, Spells (compact cs) i

/-- A line is malformed if it cannot be read. -/
theorem malformed_iff {cs : List Char} :
    Malformed cs ↔ ∃ fault, Instruction.ofChars cs = .error fault := by
  constructor
  · intro h
    obtain ⟨c, hc, hblank⟩ := h.not_blank
    have hmem : c ∈ compact cs := List.mem_filter.2 ⟨hc, by simpa using hblank⟩
    have hsome : (compact cs).head? ≠ none := by
      rw [Ne, List.head?_eq_none_iff]
      exact List.ne_nil_of_mem hmem
    have hhash := h.not_comment
    rw [head?_trimStart] at hhash
    cases hread : Instruction.ofChars cs with
    | error fault => exact ⟨fault, rfl⟩
    | ok i => exact absurd ⟨i, (ofChars_eq_ok_iff hsome hhash i).1 hread⟩ h.not_spells
  · intro h
    obtain ⟨fault, hfault⟩ := h
    refine ⟨?_, fun hhash => ?_, fun hspells => ?_⟩
    · by_contra hblank
      have hnil : trimStart cs = [] := by
        rw [← List.head?_eq_none_iff, head?_trimStart, List.head?_eq_none_iff]
        exact List.filter_eq_nil_iff.2 fun c hc => by simpa using fun h => hblank ⟨c, hc, h⟩
      unfold Instruction.ofChars at hfault
      rw [hnil] at hfault
      cases hfault
    · obtain ⟨text, htext⟩ := List.head?_eq_some_iff.1 hhash
      unfold Instruction.ofChars at hfault
      rw [htext] at hfault
      cases hfault
    · obtain ⟨i, hi⟩ := hspells
      rw [ofChars_of_spells hi] at hfault
      cases hfault

theorem not_malformed_iff {cs : List Char} :
    ¬ Malformed cs ↔ ∃ i, Instruction.ofChars cs = .ok i := by
  rw [malformed_iff]
  cases Instruction.ofChars cs <;> simp

namespace Program

/-- The first line that cannot be read is reported. -/
theorem ofLines_eq_error {before : List String} {text : String} {fault : LineFault}
    (hbefore : ∀ t ∈ before, ∃ i, Instruction.ofChars t.toList = .ok i)
    (h : Instruction.ofChars text.toList = .error fault) (rest : List String) (n : Nat) :
    ofLines n (before ++ text :: rest) = .error
      (.malformed (n + before.length) (String.ofList (compact text.toList)) fault) := by
  induction before generalizing n with
  | nil =>
    rw [List.nil_append, ofLines, ofLine_of_fault h]
    rfl
  | cons t before ih =>
    obtain ⟨i, hi⟩ := hbefore t List.mem_cons_self
    rw [List.cons_append, ofLines, ofLine_eq_ok_iff.2 hi]
    have hrest := ih (fun u hu => hbefore u (List.mem_cons_of_mem _ hu)) (n + 1)
    simp only [bind, Except.bind, hrest, List.length_cons]
    rw [Nat.add_assoc, Nat.add_comm 1]

theorem ofText_eq_error {text : String} {before rest : List (List Char)} {cs : List Char}
    (hlines : text.toList.splitOn '\n' = before ++ cs :: rest)
    (hbefore : ∀ line ∈ before, ¬ Malformed line) (h : Malformed cs) :
    ∃ fault, ofText text
      = .error (.malformed before.length (String.ofList (compact cs)) fault) := by
  obtain ⟨fault, hfault⟩ := malformed_iff.1 h
  have hread : ∀ t ∈ before.map String.ofList, ∃ i, Instruction.ofChars t.toList = .ok i := by
    intro t ht
    obtain ⟨line, hline, rfl⟩ := List.mem_map.1 ht
    rw [String.toList_ofList]
    exact not_malformed_iff.1 (hbefore line hline)
  have hcs : Instruction.ofChars (String.ofList cs).toList = .error fault := by
    rwa [String.toList_ofList]
  refine ⟨fault, ?_⟩
  unfold ofText
  rw [hlines, List.map_append, List.map_cons, ofLines_eq_error hread hcs, List.length_map,
    Nat.zero_add, String.toList_ofList]
  rfl

theorem exists_ofText {text : String}
    (h : ∀ cs ∈ text.toList.splitOn '\n', ¬ Malformed cs) : ∃ p, ofText text = .ok p := by
  have hread : ∃ is, List.Forall₂ (fun cs i => Instruction.ofChars cs = .ok i)
      (text.toList.splitOn '\n') is := by
    generalize text.toList.splitOn '\n' = lines at h
    induction lines with
    | nil => exact ⟨[], .nil⟩
    | cons cs lines ih =>
      obtain ⟨i, hi⟩ := not_malformed_iff.1 (h cs List.mem_cons_self)
      obtain ⟨is, his⟩ := ih fun c hc => h c (List.mem_cons_of_mem _ hc)
      exact ⟨i :: is, .cons hi his⟩
  obtain ⟨is, his⟩ := hread
  exact ⟨_, ofText_eq_ok_iff.2 ⟨is, rfl, his⟩⟩

/-- Lines are numbered from the given number on. -/
theorem line_eq_of_numbered {n : Nat} {is : List Instruction} {before rest : List ProgramLine}
    {l : ProgramLine} (h : numbered n is = before ++ l :: rest) : l.line = n + before.length := by
  induction before generalizing n is with
  | nil =>
    cases is with
    | nil => cases h
    | cons i is =>
      cases h
      rfl
  | cons b before ih =>
    cases is with
    | nil => cases h
    | cons i is =>
      rw [numbered, List.cons_append, List.cons.injEq] at h
      rw [ih h.2, List.length_cons]
      omega

/-- A program has one instruction for each line of its text, with the number of the line. -/
theorem lines_of_ofText {text : String} {p : Program} (h : ofText text = .ok p) :
    List.Forall₂ (fun cs l => Instruction.ofChars cs = .ok l.instruction)
      (text.toList.splitOn '\n') p.lines ∧
    ∀ before l rest, p.lines = before ++ l :: rest → l.line = before.length := by
  obtain ⟨is, rfl, his⟩ := ofText_eq_ok_iff.1 h
  constructor
  · rw [← map_instruction_numbered 0 is] at his
    rwa [List.forall₂_map_right_iff] at his
  · intro before l rest hlines
    rw [line_eq_of_numbered hlines, Nat.zero_add]

/-- A text after another one, on a line of its own, is read after it. -/
theorem ofText_append {text more : String} {p q : Program} (hp : ofText text = .ok p)
    (hq : ofText more = .ok q) : ∃ r, ofText (text ++ "\n" ++ more) = .ok r ∧
      r.lines.map (·.instruction) = p.lines.map (·.instruction) ++ q.lines.map (·.instruction) := by
  obtain ⟨is, rfl, his⟩ := ofText_eq_ok_iff.1 hp
  obtain ⟨js, rfl, hjs⟩ := ofText_eq_ok_iff.1 hq
  refine ⟨{ lines := numbered 0 (is ++ js) }, ofText_eq_ok_iff.2 ⟨is ++ js, rfl, ?_⟩, ?_⟩
  · have hchars : (text ++ "\n" ++ more).toList = text.toList ++ '\n' :: more.toList := by
      rw [String.toList_append, String.toList_append, List.append_assoc]
      rfl
    rw [hchars, List.splitOn_append_cons_self]
    exact List.rel_append his hjs
  · simp only [map_instruction_numbered]

end Program

/-! ## Canvases that cannot be built -/

/-- The work tells of no line where it is refused. -/
def Lineless {α : Type} (x : Except Error α) : Prop :=
  ∀ e, x = .error e → e.line? = none

theorem lineless_ok {α : Type} (a : α) : Lineless (.ok a) := nofun

theorem lineless_error {α : Type} {e : Error} (h : e.line? = none) :
    Lineless (.error e : Except Error α) := by
  intro e' he
  cases he
  exact h

theorem Lineless.bind {α β : Type} {x : Except Error α} {f : α → Except Error β}
    (hx : Lineless x) (hf : ∀ a, Lineless (f a)) : Lineless (x >>= f) := by
  cases x with
  | error e => exact lineless_error (hx e rfl)
  | ok a => exact hf a

theorem lineless_ofCorners (p q : Point) : Lineless (Rect.ofCorners p q) := by
  unfold Rect.ofCorners
  split
  · exact lineless_error rfl
  · split
    · exact lineless_ok _
    · exact lineless_error rfl

namespace Canvas

theorem lineless_bare (size : Point) (background : Rgba) : Lineless (bare size background) := by
  unfold bare
  split
  · exact lineless_ok _
  · exact lineless_error rfl

theorem lineless_insert (c : Canvas) (id : String) (block : Block) :
    Lineless (c.insert id block) := by
  unfold insert
  split
  · exact lineless_ok _
  · exact lineless_error rfl

theorem lineless_blank (size : Point) (background : Rgba) : Lineless (blank size background) :=
  (lineless_bare size background).bind fun c => lineless_insert c _ _

theorem lineless_addPreset (c : Canvas) (p : Preset) : Lineless (c.addPreset p) := by
  have hfill : Lineless p.fill := by
    unfold Preset.fill
    split
    · exact lineless_ok _
    · exact lineless_ok _
    · exact lineless_error rfl
  unfold addPreset
  split
  · exact lineless_error rfl
  · refine hfill.bind fun fill => Lineless.bind ?_ fun leaf => lineless_insert c _ _
    exact (lineless_ofCorners _ _).bind fun rect => lineless_ok _

theorem lineless_ofSource (c : Canvas) (layout : Layout) : Lineless (c.ofSource layout) := by
  unfold ofSource
  split
  next pixels _ =>
    refine Lineless.bind ?_ fun picture => ?_
    · unfold Picture.ofPixels
      split
      · exact lineless_ok _
      · exact lineless_error rfl
    · unfold setSource
      split
      · exact lineless_ok _
      · exact lineless_error rfl
  next =>
    split
    · exact lineless_error rfl
    · exact lineless_ok _

theorem lineless_foldlM_addPreset (presets : List Preset) (c : Canvas) :
    Lineless (presets.foldlM addPreset c) := by
  induction presets generalizing c with
  | nil => exact lineless_ok c
  | cons p presets ih =>
    rw [List.foldlM_cons]
    exact (lineless_addPreset c p).bind ih

theorem lineless_ofLayout (layout : Layout) : Lineless (ofLayout layout) := by
  unfold ofLayout
  split
  · exact (lineless_blank _ _).bind fun c => lineless_ofSource c layout
  · exact (lineless_bare _ _).bind fun c =>
      (lineless_ofSource c layout).bind fun d => lineless_foldlM_addPreset _ d

end Canvas

/-- A canvas to begin with is refused without a line. -/
theorem Program.lineless_canvas (p : Program) (layout : Option Layout) :
    Lineless (p.canvas layout) := by
  cases layout with
  | none => exact Canvas.lineless_blank _ _
  | some layout => exact Canvas.lineless_ofLayout layout

/-! ## Instructions one after another -/

namespace Interpreter

variable {s t u : Interpreter} {i : Instruction}

/-- The instructions are carried out one after another; their prices have the given sum. -/
inductive CarriesOut : Interpreter → List Instruction → Nat → Interpreter → Prop
  | nil (s : Interpreter) : CarriesOut s [] 0 s
  | cons {s t u : Interpreter} {i : Instruction} {is : List Instruction} {cost sum : Nat}
      (h : Edit.apply i s = .ok cost t) (hrest : CarriesOut t is sum u) :
      CarriesOut s (i :: is) (cost + sum) u

theorem carriesOut_append {is js : List Instruction} {sum : Nat} :
    s.CarriesOut (is ++ js) sum u ↔ ∃ sum₁ t sum₂, s.CarriesOut is sum₁ t ∧
      t.CarriesOut js sum₂ u ∧ sum = sum₁ + sum₂ := by
  induction is generalizing s sum with
  | nil =>
    constructor
    · intro h
      exact ⟨0, s, sum, .nil s, h, (Nat.zero_add sum).symm⟩
    · intro h
      obtain ⟨_, _, sum₂, ⟨⟩, hjs, rfl⟩ := h
      rwa [Nat.zero_add]
  | cons i is ih =>
    constructor
    · intro h
      obtain _ | @⟨_, t, _, _, _, cost, _, h, hrest⟩ := h
      obtain ⟨sum₁, t', sum₂, his, hjs, rfl⟩ := ih.1 hrest
      exact ⟨cost + sum₁, t', sum₂, .cons h his, hjs, (Nat.add_assoc _ _ _).symm⟩
    · intro h
      obtain ⟨_, t', sum₂, his, hjs, rfl⟩ := h
      obtain _ | @⟨_, t, _, _, _, cost, sum₁, h, hrest⟩ := his
      rw [Nat.add_assoc]
      exact .cons h (ih.2 ⟨sum₁, t', sum₂, hrest, hjs, rfl⟩)

/-- What is paid for a step: nothing, if there is nothing to do, and otherwise its price, which
fits into the sum of all prices. -/
theorem paid_of_apply {cost : Nat} (h : Edit.apply i s = .ok cost t) :
    i.Inert ∧ cost = 0 ∧ t = s ∨
      ¬ i.Inert ∧ t.totalCost = s.totalCost + cost ∧ t.totalCost < 18446744073709551616 := by
  by_cases hi : i.Inert
  · rw [Edit.apply_of_inert hi] at h
    cases h
    exact .inl ⟨hi, rfl, rfl⟩
  · obtain ⟨x, hx, hfollows⟩ := (Edit.apply_cases s i).resolve_left hi
    cases ho : s.outcome i with
    | error e =>
      rw [Edit.apply_of_outcome_error ho] at h
      cases h
    | ok o =>
      rw [ho] at hfollows
      obtain ⟨d, -, hxs⟩ := hfollows
      rw [hx] at h
      simp only [bind, EStateM.bind, hxs, Edit.charge_eq] at h
      split at h
      next hlt =>
        cases h
        exact .inr ⟨hi, rfl, hlt⟩
      next => cases h

theorem CarriesOut.totalCost {is : List Instruction} {sum : Nat} (h : s.CarriesOut is sum t) :
    t.totalCost = s.totalCost + sum := by
  induction h with
  | nil s => rfl
  | cons h _ ih =>
    rcases paid_of_apply h with ⟨-, rfl, rfl⟩ | ⟨-, htotal, -⟩
    · rw [ih, Nat.zero_add]
    · rw [ih, htotal, Nat.add_assoc]

/-- Instructions are all carried out, or up to a first one that fails. -/
theorem carriesOut_or (s : Interpreter) (ls : List ProgramLine) :
    (∃ sum t, s.CarriesOut (ls.map (·.instruction)) sum t) ∨
      ∃ before l rest sum t f u, ls = before ++ l :: rest ∧
        s.CarriesOut (before.map (·.instruction)) sum t ∧
          Edit.apply l.instruction t = .error f u := by
  induction ls generalizing s with
  | nil => exact .inl ⟨0, s, .nil s⟩
  | cons l ls ih =>
    cases h : Edit.apply l.instruction s with
    | error f u => exact .inr ⟨[], l, ls, 0, s, f, u, rfl, .nil s, h⟩
    | ok cost t =>
      rcases ih t with ⟨sum, u, hall⟩ | ⟨before, l', rest, sum, u, f, v, rfl, hbefore, hfail⟩
      · exact .inl ⟨cost + sum, u, .cons h hall⟩
      · exact .inr ⟨l :: before, l', rest, cost + sum, u, f, v, rfl, .cons h hbefore, hfail⟩

end Interpreter

/-! ## Runs -/

namespace Edit

variable {s t : Interpreter}

/-- Lines that are carried out add their prices to the sum, and the lines after them follow.
The sum that is carried along never overflows, since it is a part of all prices paid. -/
theorem runLines_append {ls : List ProgramLine} {sum : Nat}
    (h : s.CarriesOut (ls.map (·.instruction)) sum t) (rest : List ProgramLine) {start : Nat}
    (hstart : start ≤ s.totalCost) :
    runLines start (Program.effective { lines := ls ++ rest }) s
      = runLines (start + sum) (Program.effective { lines := rest }) t := by
  induction ls generalizing s sum start with
  | nil =>
    cases h
    rfl
  | cons l ls ih =>
    obtain _ | @⟨_, t', _, _, _, cost, sum, h, hrest⟩ := h
    unfold Program.effective at ih ⊢
    rw [List.cons_append, List.filter_cons]
    rcases Interpreter.paid_of_apply h with ⟨hinert, rfl, rfl⟩ | ⟨hinert, htotal, hlt⟩
    · rw [if_neg (by simpa using hinert), ih hrest hstart, Nat.zero_add]
    · have hfits : start + cost < 18446744073709551616 := by omega
      rw [if_pos (by simpa using hinert), runLines]
      have hsum : addAmounts start cost = .ok (start + cost) := by
        unfold addAmounts
        rw [if_pos hfits]
      simp only [bind, EStateM.bind, atLine, h, hsum, lift_ok]
      rw [ih hrest (by omega), Nat.add_assoc]

/-- Instructions that are all carried out give the sum of their prices. -/
theorem run_of_carriesOut {p : Program} {sum : Nat}
    (h : s.CarriesOut (p.lines.map (·.instruction)) sum t) : run p s = .ok sum t := by
  have hrun := runLines_append h [] (Nat.zero_le _)
  rw [List.append_nil, Nat.zero_add] at hrun
  exact hrun

/-- A run stops at the first instruction that fails, with what was left before it. -/
theorem run_of_apply_error {p : Program} {before rest : List ProgramLine} {l : ProgramLine}
    {sum : Nat} {f : Failure} {u : Interpreter} (hlines : p.lines = before ++ l :: rest)
    (hbefore : s.CarriesOut (before.map (·.instruction)) sum t)
    (h : apply l.instruction t = .error f u) : run p s = .error (f.atLine l.line) u := by
  have hrun := runLines_append hbefore (l :: rest) (Nat.zero_le _)
  rw [← hlines] at hrun
  have hinert : ¬ l.instruction.Inert := by
    intro hi
    rw [apply_of_inert hi] at h
    cases h
  refine Eq.trans hrun ?_
  unfold Program.effective
  rw [List.filter_cons, if_pos (by simpa using hinert), runLines]
  simp only [bind, EStateM.bind, atLine, h]

end Edit

namespace Interpreter

/-- How a run goes: all instructions are carried out, or all up to a first one, which is refused
or whose price is too large for the sum of all prices. -/
inductive Runs (s : Interpreter) (p : Program) : EStateM.Result Failure Interpreter Nat → Prop
  | finished {sum : Nat} {t : Interpreter}
      (hall : s.CarriesOut (p.lines.map (·.instruction)) sum t)
      (htotal : t.totalCost = s.totalCost + sum) : Runs s p (.ok sum t)
  | refused {before rest : List ProgramLine} {l : ProgramLine} {sum : Nat} {t : Interpreter}
      {e : Error} (hlines : p.lines = before ++ l :: rest)
      (hbefore : s.CarriesOut (before.map (·.instruction)) sum t)
      (hrun : Edit.run { p with lines := before } s = .ok sum t)
      (hrefused : Edit.apply l.instruction t = .error (.refused e) t) :
      Runs s p (.error (.refused (.atLine l.line e)) t)
  | overflowed {before rest : List ProgramLine} {l : ProgramLine} {sum : Nat}
      {t u : Interpreter} {o : Outcome} (hlines : p.lines = before ++ l :: rest)
      (hbefore : s.CarriesOut (before.map (·.instruction)) sum t)
      (hoverflow : t.outcome l.instruction = .ok o ∧
        18446744073709551616 ≤ t.totalCost + o.cost) :
      Runs s p (.error (.overflow .add) u)

theorem runs_run (s : Interpreter) (p : Program) : s.Runs p (Edit.run p s) := by
  rcases s.carriesOut_or p.lines with ⟨sum, t, hall⟩ |
    ⟨before, l, rest, sum, t, f, u, hlines, hbefore, hfail⟩
  · rw [Edit.run_of_carriesOut hall]
    exact .finished hall hall.totalCost
  · rw [Edit.run_of_apply_error hlines hbefore hfail]
    cases ho : t.outcome l.instruction with
    | error e =>
      have hrefused := Edit.apply_of_outcome_error ho
      rw [hrefused] at hfail
      cases hfail
      exact .refused hlines hbefore (Edit.run_of_carriesOut hbefore) hrefused
    | ok o =>
      obtain ⟨d, -, hok | ⟨hlarge, hover⟩⟩ := Edit.apply_of_outcome_ok ho
      · rw [hok] at hfail
        cases hfail
      · rw [hover] at hfail
        cases hfail
        exact .overflowed hlines hbefore ⟨ho, hlarge⟩

end Interpreter

/-- A run that works has carried out all instructions. -/
theorem Edit.run_eq_ok_iff {p : Program} {s t : Interpreter} {sum : Nat} :
    run p s = .ok sum t ↔ s.CarriesOut (p.lines.map (·.instruction)) sum t := by
  refine ⟨fun h => ?_, run_of_carriesOut⟩
  have hruns := s.runs_run p
  rw [h] at hruns
  cases hruns with
  | finished hall _ => exact hall

/-- A program that is read from two texts, one after the other, works where both of them work,
and does what they do. -/
theorem Edit.run_append_eq_ok_iff {p q r : Program} {s u : Interpreter} {sum : Nat}
    (hr : r.lines.map (·.instruction)
      = p.lines.map (·.instruction) ++ q.lines.map (·.instruction)) :
    run r s = .ok sum u ↔ ∃ sum₁ t sum₂, run p s = .ok sum₁ t ∧ run q t = .ok sum₂ u ∧
      sum = sum₁ + sum₂ := by
  simp only [run_eq_ok_iff, hr, Interpreter.carriesOut_append]

/-- What is answered for a run. -/
def Run.ofResult : EStateM.Result Failure Interpreter Nat → Except Failure Run
  | .ok cost s => .ok { canvas := s.canvas, cost }
  | .error f _ => .error f

/-- The first malformed line of a text is reported, whatever canvas there is. Where no line is
malformed, a canvas that cannot be built is refused without a line. Then the instructions of the
lines are carried out one after another until one fails, which is reported with its line, and
what is left is what the lines before it leave; where none fails, the sum of their prices is
answered, and as much has been paid. A text on further lines goes on where the first one
ended. -/
theorem run_of_text (text : String) (layout : Option Layout) (table : CostTable) :
    (∀ before cs rest, text.toList.splitOn '\n' = before ++ cs :: rest →
      (∀ line ∈ before, ¬ Malformed line) → Malformed cs →
        ∃ fault, Run.ofText text layout table = .error
          (.refused (.malformed before.length (String.ofList (compact cs)) fault))) ∧
    ((∀ line ∈ text.toList.splitOn '\n', ¬ Malformed line) →
      ∃ p, Program.ofText text = .ok p ∧
        List.Forall₂ (fun cs l => Instruction.ofChars cs = .ok l.instruction)
          (text.toList.splitOn '\n') p.lines ∧
        (∀ before l rest, p.lines = before ++ l :: rest → l.line = before.length) ∧
        (∀ e, p.canvas layout = .error e →
          Run.ofText text layout table = .error (.refused e) ∧ e.line? = none) ∧
        (∀ c, p.canvas layout = .ok c →
          Run.ofText text layout table = Run.ofResult (Edit.run p (.ofCanvas c table))) ∧
        (∀ s : Interpreter, s.Runs p (Edit.run p s)) ∧
        ∀ more q, Program.ofText more = .ok q →
          ∃ r, Program.ofText (text ++ "\n" ++ more) = .ok r ∧ ∀ s u sum,
            Edit.run r s = .ok sum u ↔ ∃ sum₁ t sum₂, Edit.run p s = .ok sum₁ t ∧
              Edit.run q t = .ok sum₂ u ∧ sum = sum₁ + sum₂) := by
  refine ⟨?_, fun hread => ?_⟩
  · intro before cs rest hlines hbefore hcs
    obtain ⟨fault, hfault⟩ := Program.ofText_eq_error hlines hbefore hcs
    refine ⟨fault, ?_⟩
    unfold Run.ofText
    rw [hfault]
    rfl
  · obtain ⟨p, hp⟩ := Program.exists_ofText hread
    have hrun : ∀ x, p.canvas layout = x → Run.ofText text layout table = (do
        let c ← orRefuse x
        Run.ofResult (Edit.run p (.ofCanvas c table))) := by
      rintro x rfl
      unfold Run.ofText
      rw [hp]
      rfl
    obtain ⟨hlines, hnumbers⟩ := Program.lines_of_ofText hp
    refine ⟨p, hp, hlines, hnumbers, ?_, ?_, fun s => s.runs_run p, ?_⟩
    · intro e he
      exact ⟨hrun _ he, p.lineless_canvas layout e he⟩
    · intro c hc
      exact hrun _ hc
    · intro more q hq
      obtain ⟨r, hr, hlines⟩ := Program.ofText_append hp hq
      exact ⟨r, hr, fun s u sum => Edit.run_append_eq_ok_iff hlines⟩

theorem run_of_text_stopped :
    (∃ fault, Run.ofText "color[0][1,2,3,4]\ncut[0][200]" none (.ofProblem 36)
      = .error (.refused (.malformed 1 "cut[0][200]" fault))) ∧
    ∃ p q r c rect, Program.ofText "cut[0][x][200]\n\nmerge[0.0][0.0]" = .ok p ∧
      p.canvas none = .ok c ∧
      (Interpreter.ofCanvas c (.ofProblem 36)).Runs p
        (Edit.run p (.ofCanvas c (.ofProblem 36))) ∧
      Run.ofText "cut[0][x][200]\n\nmerge[0.0][0.0]" none (.ofProblem 36)
        = Run.ofResult (Edit.run p (.ofCanvas c (.ofProblem 36))) ∧
      Run.ofResult (Edit.run p (.ofCanvas c (.ofProblem 36)))
        = .error (.refused (.atLine 2 (.notAligned "0.0" rect "0.0" rect))) ∧
      Program.ofText "#" = .ok q ∧
      Program.ofText ("cut[0][x][200]\n\nmerge[0.0][0.0]" ++ "\n" ++ "#") = .ok r ∧
      ∀ s u sum, Edit.run r s = .ok sum u ↔ ∃ sum₁ t sum₂, Edit.run p s = .ok sum₁ t ∧
        Edit.run q t = .ok sum₂ u ∧ sum = sum₁ + sum₂ := by
  constructor
  · have hmalformed : Malformed "cut[0][200]".toList :=
      malformed_iff.2 ⟨.expected ',' 10 ']', by decide +kernel⟩
    have hcolour : ¬ Malformed "color[0][1,2,3,4]".toList :=
      not_malformed_iff.2 ⟨.colour "0" ⟨1, 2, 3, 4⟩, by decide +kernel⟩
    have hlines : "color[0][1,2,3,4]\ncut[0][200]".toList.splitOn '\n'
        = ["color[0][1,2,3,4]".toList] ++ "cut[0][200]".toList :: [] := by decide +kernel
    have htext : String.ofList (compact "cut[0][200]".toList) = "cut[0][200]" := by decide +kernel
    obtain ⟨fault, hfault⟩ :=
      (run_of_text "color[0][1,2,3,4]\ncut[0][200]" none (.ofProblem 36)).1 _ _ [] hlines
        (List.forall_mem_singleton.2 hcolour) hmalformed
    rw [htext] at hfault
    exact ⟨fault, hfault⟩
  · have hread : ∀ line ∈ "cut[0][x][200]\n\nmerge[0.0][0.0]".toList.splitOn '\n',
        ¬ Malformed line := by
      have hlines : "cut[0][x][200]\n\nmerge[0.0][0.0]".toList.splitOn '\n'
          = ["cut[0][x][200]".toList, [], "merge[0.0][0.0]".toList] := by decide +kernel
      have hall : ∀ line ∈ ["cut[0][x][200]".toList, [], "merge[0.0][0.0]".toList],
          (Instruction.ofChars line).isOk = true := by decide +kernel
      rw [hlines]
      exact fun line hline => not_malformed_iff.2 (exists_of_isOk (hall line hline))
    let rect : Rect :=
      { bottomLeft := { x := 0, y := 0 }
        topRight := { x := 200, y := 400 }
        x_lt := by decide
        y_lt := by decide }
    have hstop : (fun _ => ()) <$>
        Run.ofText "cut[0][x][200]\n\nmerge[0.0][0.0]" none (.ofProblem 36)
          = .error (.refused (.atLine 2 (.notAligned "0.0" rect "0.0" rect))) := by
      decide +kernel
    have hcanvas : (Program.ofText "cut[0][x][200]\n\nmerge[0.0][0.0]"
        >>= fun p => p.canvas none).isOk = true := by decide +kernel
    have hhash : (Program.ofText "#").isOk = true := by decide +kernel
    obtain ⟨p, hp, -, -, -, hrun, hruns, hjoin⟩ :=
      (run_of_text "cut[0][x][200]\n\nmerge[0.0][0.0]" none (.ofProblem 36)).2 hread
    rw [hp] at hcanvas
    obtain ⟨c, hc⟩ := exists_of_isOk hcanvas
    obtain ⟨q, hq⟩ := exists_of_isOk hhash
    obtain ⟨r, hr, hboth⟩ := hjoin "#" q hq
    have hfail : Run.ofText "cut[0][x][200]\n\nmerge[0.0][0.0]" none (.ofProblem 36)
        = .error (.refused (.atLine 2 (.notAligned "0.0" rect "0.0" rect))) := by
      cases h : Run.ofText "cut[0][x][200]\n\nmerge[0.0][0.0]" none (.ofProblem 36) with
      | ok run =>
        rw [h] at hstop
        cases hstop
      | error f =>
        rw [h] at hstop
        cases hstop
        rfl
    have hanswer := hrun c hc
    exact ⟨p, q, r, c, rect, hp, hc, hruns _, hanswer, hanswer.symm.trans hfail, hq, hr, hboth⟩

end Easel
