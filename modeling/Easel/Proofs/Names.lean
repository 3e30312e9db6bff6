import Easel.Proofs.Steps
import Mathlib.Data.List.Nodup
import Mathlib.Logic.Relation
import Std.Data.String.ToNat

/-!
# Names of pieces

A piece is named for the block it comes from, a merged block by the next number.
Putting a block under a name that is taken replaces what stood there, so cuts are
safe only as long as these two sources of names never meet a name on the canvas.

`Descends` is the relation between a block and the pieces of its pieces, and
`Clear` is the invariant: no name on a canvas descends from another one, and none
is, or descends from, a number that is still to come. The piece names are then
new whenever a block is cut (`Clear.not_mem_of_pieceOf`), and every step keeps the
invariant (`Clear.performs`).

Main statement: `cut_keeps_others`, where the names of a canvas are clear at the
start, no cut of any run replaces another block.
-/

namespace Easel

open Relation

/-! ## Names with a point and without -/

/-- `k` names one of at most four pieces of the block `id`. -/
def PieceOf (id k : String) : Prop :=
  ∃ n < 4, k = Edit.pieceId id n

/-- `k` names a piece of the block `id`, or a piece of such a piece, and so on. -/
def Descends (id k : String) : Prop :=
  TransGen PieceOf id k

theorem toList_pieceId (id : String) (n : Nat) :
    (Edit.pieceId id n).toList = id.toList ++ '.' :: (toString n).toList := by
  show (toString id ++ "." ++ toString n).toList = _
  rw [String.toList_append, String.toList_append, List.append_assoc]
  rfl

theorem point_not_mem_toString (n : Nat) : '.' ∉ (toString n).toList := by
  intro hdot
  rw [show toString n = n.repr from rfl, Nat.toList_repr] at hdot
  have hdigit := Nat.isDigit_of_mem_toDigits (by decide) (by decide) hdot
  exact absurd hdigit (by decide)

/-- The text of a number has digits only, so it names no piece. -/
theorem not_pieceOf_toString (id : String) (n : Nat) : ¬ PieceOf id (toString n) := by
  intro h'
  obtain ⟨m, -, h⟩ := h'
  refine point_not_mem_toString n ?_
  rw [h, toList_pieceId]
  exact List.mem_append_right _ List.mem_cons_self

theorem not_descends_toString (id : String) (n : Nat) : ¬ Descends id (toString n) := by
  intro h
  obtain ⟨k, -, hk⟩ := TransGen.tail'_iff.1 h
  exact not_pieceOf_toString k n hk

/-- The number of a piece is one digit. -/
theorem length_toString_of_lt_four {n : Nat} (h : n < 4) : (toString n).toList.length = 1 := by
  have hn : n = 0 ∨ n = 1 ∨ n = 2 ∨ n = 3 := by omega
  rcases hn with rfl | rfl | rfl | rfl <;> rfl

/-- The name of a piece tells the block and the number. -/
theorem pieceId_inj {a b : String} {m n : Nat} (hm : m < 4) (hn : n < 4)
    (h : Edit.pieceId a m = Edit.pieceId b n) : a = b ∧ m = n := by
  have hl := congrArg String.toList h
  rw [toList_pieceId, toList_pieceId] at hl
  have hlen : ('.' :: (toString m).toList).length = ('.' :: (toString n).toList).length := by
    rw [List.length_cons, List.length_cons, length_toString_of_lt_four hm,
      length_toString_of_lt_four hn]
  obtain ⟨ha, hs⟩ := List.append_inj' hl hlen
  refine ⟨String.toList_inj.1 ha, Nat.repr_inj.1 (String.toList_inj.1 ?_)⟩
  exact (List.cons.inj hs).2

/-- A piece belongs to one block only. -/
theorem PieceOf.unique {a b k : String} (ha : PieceOf a k) (hb : PieceOf b k) : a = b := by
  obtain ⟨m, hm, rfl⟩ := ha
  obtain ⟨n, hn, h⟩ := hb
  exact (pieceId_inj hm hn h).1

/-- Names grow with every cut. -/
theorem Descends.length_lt {a b : String} (h : Descends a b) :
    a.toList.length < b.toList.length := by
  have hpiece : ∀ {c d : String}, PieceOf c d → c.toList.length < d.toList.length := by
    intro c _ h'
    obtain ⟨n, -, rfl⟩ := h'
    rw [toList_pieceId, List.length_append, List.length_cons]
    omega
  induction h with
  | single h => exact hpiece h
  | tail _ h ih => exact Nat.lt_trans ih (hpiece h)

/-- What a piece descends from is the block itself, or the block descends from it. -/
theorem eq_or_descends_of_pieceOf {a id k : String} (h : Descends a k) (hk : PieceOf id k) :
    a = id ∨ Descends a id := by
  obtain ⟨c, hac, hck⟩ := TransGen.tail'_iff.1 h
  obtain rfl := hck.unique hk
  rcases reflTransGen_iff_eq_or_transGen.1 hac with rfl | hac
  · exact .inl rfl
  · exact .inr hac

/-! ## The invariant -/

/-- The names of a canvas are clear of each other, and of the numbers beyond the
counter. -/
structure Clear (ids : List String) (counter : Nat) : Prop where
  /-- No block is named like a piece of another one. -/
  apart : ∀ a ∈ ids, ∀ b ∈ ids, ¬ Descends a b
  /-- No block is named by a coming number, or like a piece of a block so named. -/
  fresh : ∀ n, counter < n → n < 18446744073709551616 →
    ∀ b ∈ ids, b ≠ toString n ∧ ¬ Descends (toString n) b

namespace Clear

variable {ids : List String} {counter : Nat}

/-- The pieces of a block on the canvas are not there yet. -/
theorem not_mem_of_pieceOf (h : Clear ids counter) {id k : String} (hid : id ∈ ids)
    (hk : PieceOf id k) : k ∉ ids :=
  fun hmem => h.apart id hid k hmem (.single hk)

/-- Pieces come in the place of their block. -/
theorem cut (h : Clear ids counter) {id : String} (hid : id ∈ ids) {ids' : List String}
    (hsub : ∀ k ∈ ids', (k ∈ ids ∧ k ≠ id) ∨ PieceOf id k) : Clear ids' counter where
  apart a ha b hb hab := by
    rcases hsub b hb with ⟨hb, -⟩ | hb
    · rcases hsub a ha with ⟨ha, -⟩ | ha
      · exact h.apart a ha b hb hab
      · exact h.apart id hid b hb (TransGen.head ha hab)
    · rcases hsub a ha with ⟨ha, hne⟩ | ha
      · rcases eq_or_descends_of_pieceOf hab hb with heq | hd
        · exact hne heq
        · exact h.apart a ha id hid hd
      · -- two pieces of the same block have names of the same length
        have hlt := Descends.length_lt hab
        have hlt' := Descends.length_lt (TransGen.single ha)
        rcases eq_or_descends_of_pieceOf hab hb with rfl | hd
        · omega
        · have := hd.length_lt
          omega
  fresh n hn hn' b hb := by
    rcases hsub b hb with ⟨hb, -⟩ | hb
    · exact h.fresh n hn hn' b hb
    · refine ⟨?_, fun hd => ?_⟩
      · intro heq
        subst heq
        exact not_pieceOf_toString id n hb
      · rcases eq_or_descends_of_pieceOf hd hb with heq | hd
        · exact (h.fresh n hn hn' id hid).1 heq.symm
        · exact (h.fresh n hn hn' id hid).2 hd

/-- The next number comes in the place of other names. -/
theorem merge (h : Clear ids counter) (hcounter : counter + 1 < 18446744073709551616)
    {ids' : List String} (hsub : ∀ k ∈ ids', k ∈ ids ∨ k = toString (counter + 1)) :
    Clear ids' (counter + 1) where
  apart a ha b hb hab := by
    rcases hsub b hb with hb | rfl
    · rcases hsub a ha with ha | rfl
      · exact h.apart a ha b hb hab
      · exact (h.fresh _ (Nat.lt_succ_self _) hcounter b hb).2 hab
    · exact not_descends_toString a _ hab
  fresh n hn hn' b hb := by
    rcases hsub b hb with hb | rfl
    · exact h.fresh n (by omega) hn' b hb
    · refine ⟨fun heq => ?_, not_descends_toString _ _⟩
      have := Nat.repr_inj.1 heq
      omega

end Clear

/-! ## Steps and runs -/

/-- The names of pieces count upwards from zero. -/
theorem names_pieceEntries {α : Type} (id : String) (pieces : List α) :
    (pieceEntries id pieces).map (·.1) = (List.range pieces.length).map (Edit.pieceId id) := by
  unfold pieceEntries
  rw [List.map_map, List.range_eq_range', ← List.zipIdx_map_snd 0 pieces, List.map_map]
  rfl

theorem Instruction.le_four_of_cut? {i : Instruction} {id : String} {n : Nat}
    (h : i.cut? = some (id, n)) : n ≤ 4 := by
  cases i <;> cases h <;> decide

theorem pieceOf_of_cut? {i : Instruction} {id : String} {m n : Nat} (h : i.cut? = some (id, n))
    (hm : m < n) : PieceOf id (Edit.pieceId id m) :=
  ⟨m, Nat.lt_of_lt_of_le hm (Instruction.le_four_of_cut? h), rfl⟩

theorem Instruction.not_inert_of_cut? {i : Instruction} {id : String} {n : Nat}
    (h : i.cut? = some (id, n)) : ¬ i.Inert := by
  intro hi
  cases i <;> first | exact hi | cases h

theorem pieceOf_of_mem_pieceEntries {α : Type} {id k : String} {pieces : List α}
    (hn : pieces.length ≤ 4) (h : k ∈ (pieceEntries id pieces).map (·.1)) : PieceOf id k := by
  rw [names_pieceEntries] at h
  obtain ⟨n, hlt, rfl⟩ := List.mem_map.1 h
  exact ⟨n, Nat.lt_of_lt_of_le (List.mem_range.1 hlt) hn, rfl⟩

theorem nodup_names_pieceEntries {α : Type} {id : String} {pieces : List α}
    (hn : pieces.length ≤ 4) : ((pieceEntries id pieces).map (·.1)).Nodup := by
  rw [names_pieceEntries]
  refine List.Nodup.map_on (fun m hm n hn' heq => ?_) List.nodup_range
  have hm' := List.mem_range.1 hm
  have hn'' := List.mem_range.1 hn'
  exact (pieceId_inj (by omega) (by omega) heq).2

/-- Pieces with new names go last. -/
theorem entries_insertAll_pieceEntries {α : Type} {r : Registry α} {id : String} {pieces : List α}
    (hn : pieces.length ≤ 4) (hnew : ∀ m < pieces.length, Edit.pieceId id m ∉ r.names) :
    (r.insertAll (pieceEntries id pieces)).entries = r.entries ++ pieceEntries id pieces := by
  refine Registry.entries_insertAll (nodup_names_pieceEntries hn) fun e he => ?_
  have hname : e.1 ∈ (pieceEntries id pieces).map (·.1) := List.mem_map.2 ⟨e, he, rfl⟩
  rw [names_pieceEntries] at hname
  obtain ⟨m, hm, heq⟩ := List.mem_map.1 hname
  rw [← heq]
  exact hnew m (List.mem_range.1 hm)

/-- All that a step can do to the names. -/
inductive Interpreter.Renames (s : Interpreter) (i : Instruction) (o : Outcome) : Prop
  | same (hcut : i.cut? = none) (hmerge : i.kind ≠ .merge) (hnames : o.blocks.names = s.canvas.ids)
      (hcounter : o.counter = s.mergeCounter)
  | cut {id : String} {n : Nat} (hi : i.cut? = some (id, n)) (hid : id ∈ s.canvas.ids)
      (hcounter : o.counter = s.mergeCounter)
      (hnames : ∀ k, k ∈ o.blocks.names ↔
        (k ∈ s.canvas.ids ∧ k ≠ id) ∨ ∃ m < n, k = Edit.pieceId id m)
  | merge (hi : i.kind = .merge) (hlt : s.mergeCounter + 1 < 18446744073709551616)
      (hcounter : o.counter = s.mergeCounter + 1)
      (hnew : toString (s.mergeCounter + 1) ∈ o.blocks.names)
      (hnames : ∀ k ∈ o.blocks.names, k ∈ s.canvas.ids ∨ k = toString (s.mergeCounter + 1))

theorem Interpreter.Performs.renames {s : Interpreter} {i : Instruction} {o : Outcome}
    (hp : s.Performs i o) : s.Renames i o := by
  cases hp with
  | inert hi =>
    cases i with
    | blank => exact .same rfl nofun rfl rfl
    | comment text => exact .same rfl nofun rfl rfl
    | _ => exact hi.elim
  | colour hb => exact .same rfl nofun (Registry.names_insert_of_get? hb) rfl
  | @cut _ id block pieces hi hb hp =>
    refine .cut hi (Registry.mem_names_of_get? hb) rfl fun k => ?_
    show k ∈ ((s.canvas.blocks.erase id).insertAll (pieceEntries id pieces)).names ↔ _
    rw [Registry.mem_names_insertAll, Registry.mem_names_erase, names_pieceEntries, List.mem_map]
    simp only [List.mem_range, Canvas.ids, eq_comm]
  | swap hb₁ hb₂ hsize hnew₁ hnew₂ =>
    exact .same rfl nofun (Interpreter.names_swapped hb₁ hb₂) rfl
  | @merge id₁ id₂ block₁ block₂ hb₁ hb₂ haligned hcounter =>
    have hnames : ∀ k, k ∈ (s.merged id₁ id₂ block₁ block₂).blocks.names ↔
        k ∈ ((s.canvas.blocks.erase id₁).erase id₂).names ∨ k = toString (s.mergeCounter + 1) := by
      intro k
      show k ∈ (((s.canvas.blocks.erase id₁).erase id₂).insert _ _).names ↔ _
      rw [Registry.names_insert]
      split
      next hmem =>
        refine ⟨.inl, ?_⟩
        intro h'
        rcases h' with h | rfl
        · exact h
        · exact hmem
      next => rw [List.mem_append, List.mem_singleton]
    refine .merge rfl hcounter rfl ((hnames _).2 (.inr rfl)) fun k hk => ?_
    rcases (hnames k).1 hk with hk | hk
    · exact .inl (Registry.mem_names_erase.1 (Registry.mem_names_erase.1 hk).1).1
    · exact .inr hk

/-- What each step keeps of the names and the counter, a run keeps. -/
theorem Interpreter.names_foldl_after {P : List String → Nat → Prop} {s : Interpreter}
    (hs : P s.canvas.ids s.mergeCounter)
    (hstep : ∀ (t : Interpreter) (i : Instruction) (o : Outcome),
      P t.canvas.ids t.mergeCounter → t.Performs i o → P o.blocks.names o.counter)
    (is : List Instruction) :
    P (is.foldl Interpreter.after s).canvas.ids (is.foldl Interpreter.after s).mergeCounter := by
  refine Interpreter.foldl_after_induction (P := fun t => P t.canvas.ids t.mergeCounter) hs
    (fun t u i o ht hp hd hc => ?_) is
  rw [Canvas.ids, hd.blocks, hc]
  exact hstep t i o ht hp

/-- Every step keeps the names clear. -/
theorem Clear.performs {s : Interpreter} {i : Instruction} {o : Outcome}
    (h : Clear s.canvas.ids s.mergeCounter) (hp : s.Performs i o) :
    Clear o.blocks.names o.counter := by
  cases hp.renames with
  | same hcut hmerge hnames hcounter =>
    rw [hnames, hcounter]
    exact h
  | cut hi hid hcounter hnames =>
    rw [hcounter]
    refine h.cut hid fun k hk => ?_
    rcases (hnames k).1 hk with hk | ⟨m, hm, rfl⟩
    · exact .inl hk
    · exact .inr (pieceOf_of_cut? hi hm)
  | merge hi hlt hcounter hnew hnames =>
    rw [hcounter]
    exact h.merge hlt hnames

theorem Clear.foldl_after {s : Interpreter} (h : Clear s.canvas.ids s.mergeCounter)
    (is : List Instruction) :
    Clear (is.foldl Interpreter.after s).canvas.ids
      (is.foldl Interpreter.after s).mergeCounter :=
  Interpreter.names_foldl_after h (fun _ _ _ ht hp => ht.performs hp) is

/-! ## Where a canvas begins -/

/-- The text of a number is read as that number. -/
theorem Number.ofText?_toString {n limit : Nat} (h : n < limit) :
    Number.ofText? limit (toString n) = some n := by
  have hdigits : ∀ d ∈ Nat.toDigits 10 n, d.isDigit := fun d hd =>
    Nat.isDigit_of_mem_toDigits (by decide) (by decide) hd
  have htext : (toString n).toList = Nat.toDigits 10 n := Nat.toList_repr
  have hread : Number.ofDigits? (Nat.toDigits 10 n) = some n := by
    unfold Number.ofDigits?
    rw [if_pos ⟨Nat.toDigits_ne_nil, List.all_eq_true.2 hdigits⟩, Nat.ofDigitChars_ten_toDigits]
  unfold Number.ofText?
  rw [htext]
  split
  next cs heq =>
    have hplus : '+'.isDigit := hdigits '+' (heq ▸ List.mem_cons_self)
    exact absurd hplus (by decide)
  next =>
    simp only [hread, Option.filter_some, h, decide_true, if_true]

/-- A name that reads as a number does not go beyond the starting counter. -/
theorem Canvas.le_maxNumericId_of_ofText? {c : Canvas} {id : String} {n : Nat} (hid : id ∈ c.ids)
    (h : Number.ofText? 18446744073709551616 id = some n) : n ≤ c.maxNumericId.getD 0 := by
  have hmem : n ∈ c.ids.filterMap (Number.ofText? 18446744073709551616) :=
    List.mem_filterMap.2 ⟨id, hid, h⟩
  unfold Canvas.maxNumericId
  cases hmax : (c.ids.filterMap (Number.ofText? 18446744073709551616)).max? with
  | none =>
    rw [List.max?_eq_none_iff] at hmax
    rw [hmax] at hmem
    cases hmem
  | some m => exact (List.max?_eq_some_iff.1 hmax).2 n hmem

/-- The numbers beyond the starting counter name no block. -/
theorem Canvas.le_maxNumericId {c : Canvas} {n : Nat} (hn : n < 18446744073709551616)
    (h : toString n ∈ c.ids) : n ≤ c.maxNumericId.getD 0 :=
  Canvas.le_maxNumericId_of_ofText? h (Number.ofText?_toString hn)

theorem Clear.ofCanvas {c : Canvas} (table : CostTable)
    (hapart : ∀ a ∈ c.ids, ∀ b ∈ c.ids, ¬ Descends a b)
    (hfresh : ∀ n, c.maxNumericId.getD 0 < n → n < 18446744073709551616 →
      ∀ b ∈ c.ids, ¬ Descends (toString n) b) :
    Clear (Interpreter.ofCanvas c table).canvas.ids
      (Interpreter.ofCanvas c table).mergeCounter where
  apart := hapart
  fresh n hn hn' b hb := by
    refine ⟨?_, hfresh n hn hn' b hb⟩
    intro heq
    subst heq
    exact absurd (Canvas.le_maxNumericId hn' hb) (Nat.not_le.2 hn)

/-- The name of the single block of a blank canvas is a number, no piece. -/
theorem not_descends_of_ids_eq_root {c : Canvas} (h : c.ids = [Canvas.rootId]) (a b : String)
    (hb : b ∈ c.ids) : ¬ Descends a b := by
  rw [h] at hb
  rw [List.mem_singleton.1 hb]
  exact not_descends_toString a 0

theorem Clear.of_ids_eq_root {c : Canvas} (h : c.ids = [Canvas.rootId]) (table : CostTable) :
    Clear (Interpreter.ofCanvas c table).canvas.ids
      (Interpreter.ofCanvas c table).mergeCounter :=
  .ofCanvas table (fun a _ b hb => not_descends_of_ids_eq_root h a b hb)
    fun n _ _ b hb => not_descends_of_ids_eq_root h (toString n) b hb

/-! ## Numbers to come -/

/-- No name is a number that the counter has still to reach. On any canvas this is so at the
start, whatever else the names are like, and every step keeps it. -/
def NumbersFree (ids : List String) (counter : Nat) : Prop :=
  ∀ n, counter < n → n < 18446744073709551616 → toString n ∉ ids

namespace NumbersFree

variable {ids : List String} {counter : Nat}

theorem not_mem_succ (h : NumbersFree ids counter) (hlt : counter + 1 < 18446744073709551616) :
    toString (counter + 1) ∉ ids :=
  h _ (Nat.lt_succ_self _) hlt

theorem ofCanvas (c : Canvas) (table : CostTable) :
    NumbersFree (Interpreter.ofCanvas c table).canvas.ids
      (Interpreter.ofCanvas c table).mergeCounter :=
  fun _ hn hlt hmem => absurd (Canvas.le_maxNumericId hlt hmem) (Nat.not_le.2 hn)

/-- Pieces are no numbers, and a merge takes the next one. -/
theorem performs {s : Interpreter} {i : Instruction} {o : Outcome}
    (h : NumbersFree s.canvas.ids s.mergeCounter) (hp : s.Performs i o) :
    NumbersFree o.blocks.names o.counter := by
  intro n hn hlt hmem
  cases hp.renames with
  | same hcut hmerge hnames hcounter =>
    rw [hnames] at hmem
    rw [hcounter] at hn
    exact h n hn hlt hmem
  | cut hi hid hcounter hnames =>
    rw [hcounter] at hn
    rcases (hnames _).1 hmem with ⟨hmem, -⟩ | ⟨m, hm, heq⟩
    · exact h n hn hlt hmem
    · exact not_pieceOf_toString _ n (heq ▸ pieceOf_of_cut? hi hm)
  | merge hi hlt' hcounter hnew hnames =>
    rw [hcounter] at hn
    rcases hnames _ hmem with hmem | heq
    · exact h n (Nat.lt_of_succ_lt hn) hlt hmem
    · exact absurd (Nat.repr_inj.1 heq) (Nat.ne_of_gt hn)

theorem foldl_after {s : Interpreter} (h : NumbersFree s.canvas.ids s.mergeCounter)
    (is : List Instruction) :
    NumbersFree (is.foldl Interpreter.after s).canvas.ids
      (is.foldl Interpreter.after s).mergeCounter :=
  Interpreter.names_foldl_after h (fun _ _ _ ht hp => ht.performs hp) is

end NumbersFree

theorem Clear.numbersFree {ids : List String} {counter : Nat} (h : Clear ids counter) :
    NumbersFree ids counter :=
  fun n hn hlt hmem => (h.fresh n hn hlt _ hmem).1 rfl

/-! ## No cut replaces another block -/

/-- What a cut does to the names, if they are clear. -/
theorem Clear.performs_cut {s : Interpreter} (h : Clear s.canvas.ids s.mergeCounter)
    {id : String} {block : Block} {pieces : List Block} (hb : s.canvas.get? id = some block)
    (hn : pieces.length ≤ 4) :
    (∀ m < pieces.length, Edit.pieceId id m ∉ s.canvas.ids) ∧
      ((s.canvas.blocks.erase id).insertAll (pieceEntries id pieces)).entries
        = (s.canvas.blocks.erase id).entries ++ pieceEntries id pieces := by
  have hid : id ∈ s.canvas.ids := Registry.mem_names_of_get? hb
  have hnew (m : Nat) (hm : m < pieces.length) : Edit.pieceId id m ∉ s.canvas.ids :=
    h.not_mem_of_pieceOf hid ⟨m, by omega, rfl⟩
  refine ⟨hnew, entries_insertAll_pieceEntries hn fun m hm hmem => ?_⟩
  exact hnew m hm (Registry.mem_names_erase.1 hmem).1

/-- What a merge does to the entries, if the next number is new. -/
theorem Interpreter.entries_merged {s : Interpreter}
    (hnew : toString (s.mergeCounter + 1) ∉ s.canvas.ids) (id₁ id₂ : String)
    (block₁ block₂ : Block) :
    (s.merged id₁ id₂ block₁ block₂).blocks.entries =
      ((s.canvas.blocks.erase id₁).erase id₂).entries ++
        [(toString (s.mergeCounter + 1),
          .complex (block₁.rect.hull block₂.rect) (block₁.leaves ++ block₂.leaves))] := by
  refine Registry.entries_insert_of_not_mem (fun hmem => ?_) _
  exact hnew (Registry.mem_names_erase.1 (Registry.mem_names_erase.1 hmem).1).1

theorem length_erase {α : Type} {r : Registry α} {id : String} {a : α}
    (h : r.get? id = some a) : (r.erase id).names.length + 1 = r.names.length := by
  have hp := (Registry.perm_erase h).length_eq
  rw [List.length_cons] at hp
  simp only [Registry.names, List.length_map]
  exact hp.symm

/-- Where no name of a canvas descends from another one, nor from a number beyond
the largest one on the canvas, no cut of any run replaces a block: the names of the
pieces are new, the number of blocks grows by the pieces less the block that is cut,
and all other blocks stay what they are. -/
theorem cut_keeps_others {c : Canvas} (table : CostTable)
    (hapart : ∀ a ∈ c.ids, ∀ b ∈ c.ids, ¬ Descends a b)
    (hfresh : ∀ n, c.maxNumericId.getD 0 < n → n < 18446744073709551616 →
      ∀ b ∈ c.ids, ¬ Descends (toString n) b)
    (is : List Instruction) {s t : Interpreter}
    (hs : s = is.foldl Interpreter.after (.ofCanvas c table)) {i : Instruction} {id : String}
    {n cost : Nat} (hi : i.cut? = some (id, n)) (h : Edit.apply i s = .ok cost t) :
    (∀ m < n, Edit.pieceId id m ∉ s.canvas.ids) ∧
      t.canvas.ids.length + 1 = s.canvas.ids.length + n ∧
      ∀ k ∈ s.canvas.ids, k ≠ id → t.canvas.get? k = s.canvas.get? k := by
  have hclear : Clear s.canvas.ids s.mergeCounter := by
    rw [hs]
    exact (Clear.ofCanvas table hapart hfresh).foldl_after is
  obtain ⟨o, hp, hd, -⟩ := Interpreter.performs_of_apply h
  cases hp with
  | inert hinert => exact absurd hinert (Instruction.not_inert_of_cut? hi)
  | colour hb => cases hi
  | swap hb₁ hb₂ hsize hnew₁ hnew₂ => cases hi
  | merge hb₁ hb₂ haligned hcounter => cases hi
  | @cut _ id' block pieces hi' hb hp =>
    rw [hi] at hi'
    cases hi'
    have hn := Instruction.le_four_of_cut? hi
    obtain ⟨hnew, hentries⟩ := hclear.performs_cut hb hn
    have hblocks : t.canvas.blocks
        = (s.canvas.blocks.erase id).insertAll (pieceEntries id pieces) := hd.blocks
    refine ⟨hnew, ?_, fun k hk hne => ?_⟩
    · have hlen := length_erase hb
      have hids : t.canvas.ids
          = (s.canvas.blocks.erase id).names ++ (pieceEntries id pieces).map (·.1) := by
        rw [Canvas.ids, hblocks, Registry.names, hentries, List.map_append]
        rfl
      rw [hids, names_pieceEntries, List.length_append, List.length_map, List.length_range]
      show _ = s.canvas.blocks.names.length + _
      omega
    · have hold : k ∉ (pieceEntries id pieces).map (·.1) := fun hmem =>
        hclear.not_mem_of_pieceOf (Registry.mem_names_of_get? hb)
          (pieceOf_of_mem_pieceEntries hn hmem) hk
      rw [Canvas.get?, hblocks, Registry.get?_insertAll_of_not_mem hold, Registry.get?_erase,
        if_neg hne]
      rfl

theorem cut_keeps_others_merged : ∃ c s cost t,
    Canvas.blank (.ofCoordinates 4 4) .white = .ok c ∧
      s = [.verticalCut "0" 2, .merge "0.1" "0.0"].foldl Interpreter.after (.ofCanvas c .legacy) ∧
        Edit.apply (.pointCut "1" (.ofCoordinates 1 3)) s = .ok cost t ∧
          (∀ m < 4, Edit.pieceId "1" m ∉ s.canvas.ids) ∧
            t.canvas.ids.length + 1 = s.canvas.ids.length + 4 ∧
              ∀ k ∈ s.canvas.ids, k ≠ "1" → t.canvas.get? k = s.canvas.get? k := by
  obtain ⟨c, hc, -, -, hentries⟩ :=
    Canvas.exists_blank (show Point.Positive (.ofCoordinates 4 4) from ⟨by decide, by decide⟩) .white
  have hroot : ∀ a b : String, b ∈ c.ids → ¬ Descends a b := by
    refine not_descends_of_ids_eq_root ?_
    rw [Canvas.ids, Registry.names, hentries]
    rfl
  obtain ⟨cost, t, ht, -⟩ : ∃ cost t, Edit.apply (.pointCut "1" (.ofCoordinates 1 3))
      ([.verticalCut "0" 2, .merge "0.1" "0.0"].foldl Interpreter.after (.ofCanvas c .legacy))
        = .ok cost t ∧ True := by
    cases hc
    refine Interpreter.exists_apply_of_accepts ?_
    decide +kernel
  exact ⟨c, _, cost, t, hc, rfl, ht, cut_keeps_others .legacy (fun a _ b hb => hroot a b hb)
    (fun n _ _ b hb => hroot _ b hb) _ rfl rfl ht⟩

/-- A preset can have the name of a piece, and one can have the name of a piece of
the next merged block. A canvas that is taken up again has the pieces of a merged block
on it whose number is given once more. Each of them is replaced by a cut. -/
theorem cut_replaces_preset :
    (∃ c, Canvas.ofLayout
        { size := .ofCoordinates 4 4
          presets :=
            [{ id := "0", bottomLeft := .origin, topRight := .ofCoordinates 2 4,
               colour := some .white },
             { id := "0.0", bottomLeft := .ofCoordinates 2 0, topRight := .ofCoordinates 4 4,
               colour := some .white }] } = .ok c ∧
      ∃ cost t, Edit.apply (.verticalCut "0" 1) (.ofCanvas c .legacy) = .ok cost t ∧
        Edit.pieceId "0" 0 ∈ c.ids ∧ t.canvas.ids.length = c.ids.length ∧
          t.canvas.get? "0.0" ≠ c.get? "0.0") ∧
    (∃ c, Canvas.ofLayout
        { size := .ofCoordinates 4 4
          presets :=
            [{ id := "a", bottomLeft := .origin, topRight := .ofCoordinates 1 4,
               colour := some .white },
             { id := "b", bottomLeft := .ofCoordinates 1 0, topRight := .ofCoordinates 2 4,
               colour := some .white },
             { id := "1.0", bottomLeft := .ofCoordinates 2 0, topRight := .ofCoordinates 4 4,
               colour := some .white }] } = .ok c ∧
      ∃ s, s = [.merge "a" "b"].foldl Interpreter.after (.ofCanvas c .legacy) ∧
        ∃ cost t, Edit.apply (.verticalCut "1" 1) s = .ok cost t ∧
          Edit.pieceId "1" 0 ∈ s.canvas.ids ∧ t.canvas.ids.length = s.canvas.ids.length ∧
            t.canvas.get? "1.0" ≠ s.canvas.get? "1.0") ∧
    ∃ c, Canvas.blank (.ofCoordinates 4 4) .white = .ok c ∧
      ∃ r, r = [.verticalCut "0" 2, .merge "0.0" "0.1", .pointCut "1" (.ofCoordinates 2 2)].foldl
          Interpreter.after (.ofCanvas c .legacy) ∧
        ∃ s, s = [.merge "1.1" "1.2"].foldl Interpreter.after (.ofCanvas r.canvas .legacy) ∧
          ∃ cost t, Edit.apply (.verticalCut "1" 3) s = .ok cost t ∧
            Edit.pieceId "1" 0 ∈ s.canvas.ids ∧ t.canvas.ids.length = s.canvas.ids.length ∧
              t.canvas.get? "1.0" ≠ s.canvas.get? "1.0" := by
  refine ⟨?_, ?_, ?_⟩
  · refine ⟨_, rfl, Interpreter.exists_apply_of_accepts ?_⟩
    decide +kernel
  · refine ⟨_, rfl, _, rfl, Interpreter.exists_apply_of_accepts ?_⟩
    decide +kernel
  · refine ⟨_, rfl, _, rfl, _, rfl, Interpreter.exists_apply_of_accepts ?_⟩
    decide +kernel

end Easel
