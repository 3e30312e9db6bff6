import Easel.Proofs.LineReading
import Easel.Proofs.Names

/-!
# Where names come from

On a canvas that began blank every name goes back to a number that the counter has
reached (`Rooted`): it is the number itself, or the name of a piece of a block whose name
goes back to it. Such a name begins with that number, is a name in the grammar of lines,
and descends from each name that is its beginning up to a point.

A name that has been on the canvas is `Spent`: nothing on the canvas descends to it any
more. Steps keep it so, and what a step puts on the canvas is never a spent name.

Main statement: `names_of_run`, all names of a run can be written on a line, stand apart
from each other and never come back.
-/

namespace Easel

open Relation

/-! ## Names that go back to a number -/

/-- The name goes back to a number up to the counter. -/
def Rooted (counter : Nat) (k : String) : Prop :=
  ∃ n ≤ counter, ReflTransGen PieceOf (toString n) k

theorem Rooted.mono {m n : Nat} {k : String} (hle : m ≤ n) (h : Rooted m k) : Rooted n k := by
  obtain ⟨root, hroot, hk⟩ := h
  exact ⟨root, Nat.le_trans hroot hle, hk⟩

/-- A piece has the root of the block that it comes from. -/
theorem Rooted.tail {counter : Nat} {id k : String} (h : Rooted counter id) (hk : PieceOf id k) :
    Rooted counter k := by
  obtain ⟨root, hroot, hid⟩ := h
  exact ⟨root, hroot, hid.tail hk⟩

/-- A number with piece numbers after it is a name of the grammar. -/
theorem Rooted.isBlockId {counter : Nat} {k : String} (h : Rooted counter k) : IsBlockId k := by
  obtain ⟨n, -, h⟩ := h
  induction h with
  | refl =>
    exact isBlockId_iff.2 ⟨Nat.toDigits 10 n, [], isNumeral_toDigits n, nofun, by
      rw [List.flatMap_nil, List.append_nil]
      exact Nat.toList_repr⟩
  | tail _ hk ih =>
    obtain ⟨m, -, rfl⟩ := hk
    obtain ⟨first, parts, hfirst, hnum, hid⟩ := isBlockId_iff.1 ih
    refine isBlockId_iff.2 ⟨first, parts ++ [Nat.toDigits 10 m], hfirst, ?_, ?_⟩
    · intro ds hds
      rcases List.mem_append.1 hds with hds | hds
      · exact hnum ds hds
      · rw [List.mem_singleton.1 hds]
        exact isNumeral_toDigits m
    · rw [toList_pieceId, hid, List.flatMap_append, List.append_assoc, List.flatMap_singleton]
      congr 3
      exact Nat.toList_repr

/-- The number that a name begins with. -/
def leadingNumber (k : String) : Nat :=
  Nat.ofDigitChars 10 (k.toList.takeWhile Char.isDigit) 0

/-- The number that a name goes back to is the one that it begins with. -/
theorem leadingNumber_eq {n : Nat} {k : String} (h : ReflTransGen PieceOf (toString n) k) :
    leadingNumber k = n := by
  have hspelled : ∃ w, k.toList = Nat.toDigits 10 n ++ w ∧ Scan.Stops Char.isDigit w := by
    induction h with
    | refl => exact ⟨[], by rw [List.append_nil]; exact Nat.toList_repr, Scan.stops_nil _⟩
    | tail _ hk ih =>
      obtain ⟨m, -, rfl⟩ := hk
      obtain ⟨w, hw, hstop⟩ := ih
      refine ⟨w ++ '.' :: (toString m).toList, ?_, ?_⟩
      · rw [toList_pieceId, hw, List.append_assoc]
      · cases w with
        | nil => exact Scan.stops_cons.2 (by decide)
        | cons c w => exact Scan.stops_cons.2 (Scan.stops_cons.1 hstop)
  obtain ⟨w, hw, hstop⟩ := hspelled
  obtain ⟨htake, -⟩ := Scan.span_iff.2 ⟨hw, (isNumeral_toDigits n).digits, hstop⟩
  unfold leadingNumber
  rw [← htake]
  exact Nat.ofDigitChars_ten_toDigits

/-- A name that goes back to a number descends from what stands before one of its points. -/
theorem descends_of_toList_eq {n : Nat} {a b : String} {more : List Char}
    (hb : ReflTransGen PieceOf (toString n) b) (h : b.toList = a.toList ++ '.' :: more) :
    Descends a b := by
  induction hb generalizing more with
  | refl =>
    refine absurd ?_ (point_not_mem_toString n)
    rw [h]
    exact List.mem_append_right _ List.mem_cons_self
  | @tail id _ _ hk ih =>
    have hpiece := hk
    obtain ⟨m, -, rfl⟩ := hk
    rw [toList_pieceId] at h
    -- the point is the last one of the name or stands in the name of the block
    rcases List.append_eq_append_iff.1 h with ⟨x, ha, hx⟩ | ⟨x, hid, hx⟩
    · cases x with
      | nil =>
        rw [List.append_nil] at ha
        rw [String.toList_inj.1 ha]
        exact .single hpiece
      | cons c x =>
        rw [List.cons_append, List.cons.injEq] at hx
        refine absurd ?_ (point_not_mem_toString m)
        rw [hx.2]
        exact List.mem_append_right _ List.mem_cons_self
    · cases x with
      | nil =>
        rw [List.append_nil] at hid
        rw [← String.toList_inj.1 hid]
        exact .single hpiece
      | cons c x =>
        rw [List.cons_append, List.cons.injEq] at hx
        rw [← hx.1] at hid
        exact (ih hid).tail hpiece

/-! ## Names that a step takes -/

/-- A step that works puts a block under the name. -/
inductive Interpreter.Creates (s : Interpreter) (i : Instruction) : String → Prop
  | piece {o : Outcome} {id : String} {m n : Nat} (hp : s.Performs i o)
      (hi : i.cut? = some (id, n)) (hm : m < n) : Creates s i (Edit.pieceId id m)
  | merged {o : Outcome} (hp : s.Performs i o) (hi : i.kind = .merge) :
      Creates s i (toString (s.mergeCounter + 1))

theorem Instruction.cut?_eq_none_of_merge {i : Instruction} (h : i.kind = .merge) :
    i.cut? = none := by
  cases i with
  | merge => rfl
  | _ => cases h

section
variable {s : Interpreter} {i : Instruction} {o : Outcome} {k : String}

/-- A cut takes a block away and puts its pieces in the place. -/
theorem Interpreter.Performs.names_of_cut? {id : String} {n : Nat} (hp : s.Performs i o)
    (hi : i.cut? = some (id, n)) : id ∈ s.canvas.ids ∧ ∀ k, k ∈ o.blocks.names ↔
      (k ∈ s.canvas.ids ∧ k ≠ id) ∨ ∃ m < n, k = Edit.pieceId id m := by
  cases hp.renames with
  | same hcut hmerge hnames hcounter =>
    rw [hcut] at hi
    cases hi
  | cut hi' hid hcounter hnames =>
    rw [hi'] at hi
    cases hi
    exact ⟨hid, hnames⟩
  | merge hkind hlt hcounter hnew hnames =>
    rw [Instruction.cut?_eq_none_of_merge hkind] at hi
    cases hi

/-- A merge leaves a block with the next number. -/
theorem Interpreter.Performs.mem_names_of_merge (hp : s.Performs i o) (hi : i.kind = .merge) :
    toString (s.mergeCounter + 1) ∈ o.blocks.names := by
  cases hp.renames with
  | same hcut hmerge hnames hcounter => exact absurd hi hmerge
  | cut hi' hid hcounter hnames =>
    rw [Instruction.cut?_eq_none_of_merge hi] at hi'
    cases hi'
  | merge hkind hlt hcounter hnew hnames => exact hnew

/-- A name is there before a step or created by it. -/
theorem Interpreter.mem_names_of_performs (hp : s.Performs i o) (hk : k ∈ o.blocks.names) :
    k ∈ s.canvas.ids ∨ s.Creates i k := by
  cases hp.renames with
  | same hcut hmerge hnames hcounter => exact .inl (hnames ▸ hk)
  | cut hi hid hcounter hnames =>
    rcases (hnames k).1 hk with hk | ⟨m, hm, rfl⟩
    · exact .inl hk.1
    · exact .inr (.piece hp hi hm)
  | merge hi hlt hcounter hnew hnames =>
    rcases hnames k hk with hk | rfl
    · exact .inl hk
    · exact .inr (.merged hp hi)

/-- After a step there is nothing but what was there and what the step has put there. -/
theorem Interpreter.mem_ids_after (hk : k ∈ (s.after i).canvas.ids) :
    k ∈ s.canvas.ids ∨ s.Creates i k := by
  cases ho : s.outcome i with
  | error e =>
    rw [after_of_outcome_error ho] at hk
    exact .inl hk
  | ok o =>
    have hp := performs_of_outcome ho
    rw [Canvas.ids, (after_of_performs hp).1.blocks] at hk
    exact mem_names_of_performs hp hk

/-- A name that a step creates is there after it. -/
theorem Interpreter.mem_ids_after_of_creates (h : s.Creates i k) : k ∈ (s.after i).canvas.ids := by
  cases h with
  | @piece o id m n hp hi hm =>
    rw [Canvas.ids, (after_of_performs hp).1.blocks]
    exact ((hp.names_of_cut? hi).2 _).2 (.inr ⟨m, hm, rfl⟩)
  | merged hp hi =>
    rw [Canvas.ids, (after_of_performs hp).1.blocks]
    exact hp.mem_names_of_merge hi

end

/-! ## Names that are used up -/

/-- The name has been on the canvas, or may as well have been. -/
structure Spent (ids : List String) (counter : Nat) (k : String) : Prop where
  rooted : Rooted counter k
  not_descends : ∀ a ∈ ids, ¬ Descends a k

namespace Spent

variable {s : Interpreter} {i : Instruction} {o : Outcome} {k : String}

/-- A spent name is not created by the next step. -/
theorem not_creates (h : Spent s.canvas.ids s.mergeCounter k) : ¬ s.Creates i k := by
  intro hc
  cases hc with
  | @piece _ id m n hp hi hm =>
    exact h.not_descends id (hp.names_of_cut? hi).1 (.single (pieceOf_of_cut? hi hm))
  | merged hp hi =>
    obtain ⟨n, hn, hroot⟩ := h.rooted
    have hleading := leadingNumber_eq hroot
    rw [leadingNumber_eq .refl] at hleading
    omega

/-- No step makes a spent name usable again. -/
theorem performs (h : Spent s.canvas.ids s.mergeCounter k) (hp : s.Performs i o) :
    Spent o.blocks.names o.counter k := by
  cases hp.renames with
  | same hcut hmerge hnames hcounter =>
    rw [hnames, hcounter]
    exact h
  | cut hi hid hcounter hnames =>
    rw [hcounter]
    refine ⟨h.rooted, fun a ha hak => ?_⟩
    rcases (hnames a).1 ha with ⟨ha, -⟩ | ⟨m, hm, rfl⟩
    · exact h.not_descends a ha hak
    · -- what descends from a piece descends from the block
      exact h.not_descends _ hid (.head (pieceOf_of_cut? hi hm) hak)
  | merge hi hlt hcounter hnew hnames =>
    rw [hcounter]
    refine ⟨h.rooted.mono (Nat.le_succ _), fun a ha hak => ?_⟩
    rcases hnames a ha with ha | rfl
    · exact h.not_descends a ha hak
    · -- a name goes back to one number only
      obtain ⟨n, hn, hroot⟩ := h.rooted
      have hleading := leadingNumber_eq hroot
      rw [leadingNumber_eq hak.to_reflTransGen] at hleading
      omega

/-- A spent name stays spent. -/
theorem foldl_after (h : Spent s.canvas.ids s.mergeCounter k) (is : List Instruction) :
    Spent (is.foldl Interpreter.after s).canvas.ids
      (is.foldl Interpreter.after s).mergeCounter k :=
  Interpreter.names_foldl_after (P := fun ids counter => Spent ids counter k) h
    (fun _ _ _ ht hp => ht.performs hp) is

/-- A spent name that is gone stays away. -/
theorem not_mem_foldl_after (h : Spent s.canvas.ids s.mergeCounter k) (hk : k ∉ s.canvas.ids)
    (is : List Instruction) : k ∉ (is.foldl Interpreter.after s).canvas.ids := by
  refine (Interpreter.names_foldl_after (P := fun ids counter => Spent ids counter k ∧ k ∉ ids)
    ⟨h, hk⟩ (fun t i o ht hp => ?_) is).2
  refine ⟨ht.1.performs hp, fun hmem => ?_⟩
  rcases Interpreter.mem_names_of_performs hp hmem with hmem | hnew
  · exact ht.2 hmem
  · exact ht.1.not_creates hnew

end Spent

/-! ## Runs from a blank canvas -/

/-- What every step of a run from a blank canvas keeps of its names. -/
structure Lineage (ids : List String) (counter : Nat) : Prop where
  clear : Clear ids counter
  rooted : ∀ k ∈ ids, Rooted counter k

namespace Lineage

variable {s : Interpreter}

/-- Every name on the canvas is spent. -/
theorem spent {ids : List String} {counter : Nat} (h : Lineage ids counter) {k : String}
    (hk : k ∈ ids) : Spent ids counter k :=
  ⟨h.rooted k hk, fun a ha => h.clear.apart a ha k hk⟩

/-- A canvas with one block, the root, has a lineage to begin with. -/
theorem ofCanvas {c : Canvas} (h : c.ids = [Canvas.rootId]) (table : CostTable) :
    Lineage (Interpreter.ofCanvas c table).canvas.ids
      (Interpreter.ofCanvas c table).mergeCounter := by
  refine ⟨Clear.of_ids_eq_root h table, fun k hk => ?_⟩
  rw [show (Interpreter.ofCanvas c table).canvas.ids = _ from h] at hk
  rw [List.mem_singleton.1 hk]
  exact ⟨0, Nat.zero_le _, .refl⟩

/-- A step gives its new names roots among the numbers that are used up. -/
theorem performs {i : Instruction} {o : Outcome} (h : Lineage s.canvas.ids s.mergeCounter)
    (hp : s.Performs i o) : Lineage o.blocks.names o.counter := by
  refine ⟨h.clear.performs hp, fun k hk => ?_⟩
  cases hp.renames with
  | same hcut hmerge hnames hcounter =>
    rw [hnames] at hk
    rw [hcounter]
    exact h.rooted k hk
  | cut hi hid hcounter hnames =>
    rw [hcounter]
    rcases (hnames k).1 hk with ⟨hk, -⟩ | ⟨m, hm, rfl⟩
    · exact h.rooted k hk
    · exact (h.rooted _ hid).tail (pieceOf_of_cut? hi hm)
  | merge hi hlt hcounter hnew hnames =>
    rw [hcounter]
    rcases hnames k hk with hk | rfl
    · exact (h.rooted k hk).mono (Nat.le_succ _)
    · exact ⟨_, Nat.le_refl _, .refl⟩

/-- A run keeps the lineage. -/
theorem foldl_after (h : Lineage s.canvas.ids s.mergeCounter) (is : List Instruction) :
    Lineage (is.foldl Interpreter.after s).canvas.ids
      (is.foldl Interpreter.after s).mergeCounter :=
  Interpreter.names_foldl_after h (fun _ _ _ ht hp => ht.performs hp) is

end Lineage

/-- Names as a line can write them, apart from each other and within the counter. -/
structure WellNamed (ids : List String) (counter : Nat) : Prop where
  isBlockId : ∀ k ∈ ids, IsBlockId k
  apart : ∀ a ∈ ids, ∀ b ∈ ids, ∀ more : List Char, b.toList ≠ a.toList ++ '.' :: more
  leadingNumber_le : ∀ k ∈ ids, leadingNumber k ≤ counter

/-- Names with a lineage are names of the grammar, none of them goes on from another one, and
none begins with a number beyond the counter. -/
theorem Lineage.wellNamed {ids : List String} {counter : Nat} (h : Lineage ids counter) :
    WellNamed ids counter where
  isBlockId k hk := (h.rooted k hk).isBlockId
  apart a ha b hb more heq := by
    obtain ⟨n, -, hroot⟩ := h.rooted b hb
    exact h.clear.apart a ha b hb (descends_of_toList_eq hroot heq)
  leadingNumber_le k hk := by
    obtain ⟨n, hn, hroot⟩ := h.rooted k hk
    rw [leadingNumber_eq hroot]
    exact hn

/-- After any instructions on a canvas that began blank, the names are well-formed and an
instruction that works on blocks of the canvas is read from its own text. Whatever name a
step adds was on the canvas at no earlier time, and a name that has gone does not come back. -/
theorem names_of_run {size : Point} (h : size.Positive) (background : Rgba) :
    ∃ c, Canvas.blank size background = .ok c ∧ ∀ (table : CostTable) (is : List Instruction),
      let idsAfter := fun js : List Instruction =>
        (js.foldl Interpreter.after (.ofCanvas c table)).canvas.ids
      let s := is.foldl Interpreter.after (.ofCanvas c table)
      WellNamed s.canvas.ids s.mergeCounter ∧
        (∀ i : Instruction, ¬ i.Inert → (∀ k ∈ i.operands, k ∈ s.canvas.ids) →
          ∀ n, Instruction.ofLine n i.text = .ok i) ∧
        (∀ i, ∀ k ∈ (s.after i).canvas.ids, k ∈ s.canvas.ids ∨ s.Creates i k) ∧
        (∀ i k, s.Creates i k →
          k ∈ (s.after i).canvas.ids ∧ ∀ js, js <+: is → k ∉ idsAfter js) ∧
        ∀ js ks, js <+: ks → ks <+: is → ∀ k ∈ idsAfter js, k ∉ idsAfter ks → k ∉ s.canvas.ids := by
  obtain ⟨c, hc, -, -, hentries⟩ := Canvas.exists_blank h background
  have hroot : c.ids = [Canvas.rootId] := by
    rw [Canvas.ids, Registry.names, hentries]
    rfl
  refine ⟨c, hc, fun table is => ?_⟩
  have hlineage (js : List Instruction) := (Lineage.ofCanvas hroot table).foldl_after js
  have hnamed := (hlineage is).wellNamed
  refine ⟨hnamed, ?_, fun i k hk => Interpreter.mem_ids_after hk, ?_, ?_⟩
  · intro i hi hids n
    exact ofLine_of_spells (spells_text hi fun k hk => hnamed.isBlockId k (hids k hk)) n
  · intro i k hcreates
    refine ⟨Interpreter.mem_ids_after_of_creates hcreates, ?_⟩
    intro js hjs hk
    obtain ⟨rest, rfl⟩ := hjs
    rw [List.foldl_append] at hcreates
    exact (((hlineage js).spent hk).foldl_after rest).not_creates hcreates
  · intro js ks hjs hks k hk hgone
    obtain ⟨mid, rfl⟩ := hjs
    obtain ⟨rest, rfl⟩ := hks
    have hspent := ((hlineage js).spent hk).foldl_after mid
    rw [← List.foldl_append] at hspent
    rw [List.foldl_append]
    exact hspent.not_mem_foldl_after hgone rest

theorem names_of_run_cut_and_merged :
    Point.Positive (.ofCoordinates 4 4) ∧ ∃ c s,
      Canvas.blank (.ofCoordinates 4 4) .white = .ok c ∧
        s = [.verticalCut "0" 2, .merge "0.1" "0.0", .pointCut "1" (.ofCoordinates 1 3)].foldl
          Interpreter.after (.ofCanvas c .legacy) ∧
        s.canvas.ids = ["1.0", "1.1", "1.2", "1.3"] ∧ WellNamed s.canvas.ids s.mergeCounter ∧
          (∀ n, Instruction.ofLine n "swap [1.0] [1.3]" = .ok (.swap "1.0" "1.3")) ∧
            ∀ js : List Instruction, "0.0" ∉ (js.foldl Interpreter.after s).canvas.ids := by
  have hsize : Point.Positive (.ofCoordinates 4 4) := ⟨by decide, by decide⟩
  obtain ⟨c, hc, hrun⟩ := names_of_run hsize .white
  obtain ⟨is, his⟩ : ∃ is : List Instruction,
    is = [.verticalCut "0" 2, .merge "0.1" "0.0", .pointCut "1" (.ofCoordinates 1 3)] := ⟨_, rfl⟩
  rw [← his]
  have hids : (is.foldl Interpreter.after (.ofCanvas c .legacy)).canvas.ids
      = ["1.0", "1.1", "1.2", "1.3"] := by
    cases hc
    rw [his]
    decide +kernel
  have hcut : "0.0" ∈
      ([.verticalCut "0" 2].foldl Interpreter.after (.ofCanvas c .legacy)).canvas.ids := by
    cases hc
    decide +kernel
  have hprefix : [.verticalCut "0" 2] <+: is := ⟨_, his.symm⟩
  refine ⟨hsize, c, _, hc, rfl, hids, (hrun .legacy is).1, fun n => ?_, fun js => ?_⟩
  · refine (hrun .legacy is).2.1 (.swap "1.0" "1.3") not_false ?_ n
    rw [hids]
    decide
  · rw [← List.foldl_append]
    refine (hrun .legacy (is ++ js)).2.2.2.2 _ is hprefix (List.prefix_append _ _) "0.0" hcut ?_
    show "0.0" ∉ (is.foldl Interpreter.after _).canvas.ids
    rw [hids]
    decide

end Easel
