import Easel.Program.Line
import Mathlib.Data.List.Basic
import Std.Data.String.ToNat

/-!
# How instructions are spelled

The grammar of a line, told without a reader. `IsNumeral` are the digits of a number
without leading zeros, `IsBlockId` the names made of numerals with points between them,
and `Spells` relates a text without blanks to the one instruction that it spells. A
number is whatever its digits denote, so nothing is said here about how long a name or a
numeral may be; only the types of coordinates and channels bound them.

Main statement: `spells_text`, the canonical text of an instruction spells it, if its
blocks have such names.
-/

namespace Easel

/-! ## Numerals and names -/

/-- The digits of a number without leading zeros. -/
structure IsNumeral (ds : List Char) : Prop where
  ne_nil : ds ≠ []
  digits : ∀ d ∈ ds, d.isDigit
  no_leading_zero : ds.head? = some '0' → ds = ['0']

/-- The numeral of a number. -/
structure Denotes (ds : List Char) (n : Nat) : Prop where
  numeral : IsNumeral ds
  value : Nat.ofDigitChars 10 ds 0 = n

/-- A name made of numerals with points between them. -/
def IsBlockId (id : String) : Prop :=
  ∃ parts : List (List Char), parts ≠ [] ∧ (∀ ds ∈ parts, IsNumeral ds) ∧
    id.toList = ['.'].intercalate parts

/-- The decimal digits of a number have no leading zero. -/
theorem isNumeral_toDigits (n : Nat) : IsNumeral (Nat.toDigits 10 n) where
  ne_nil := Nat.toDigits_ne_nil
  digits d hd := Nat.isDigit_of_mem_toDigits (by decide) (by decide) hd
  no_leading_zero h := by
    induction n using Nat.strongRecOn with
    | ind n ih =>
      rcases Nat.lt_or_ge n 10 with hlt | hge
      · rw [Nat.toDigits_of_lt_base hlt] at h ⊢
        rw [List.head?_cons, Option.some.injEq] at h
        rw [h]
      · -- the first digit is that of a smaller number, which is not zero
        rw [Nat.toDigits_of_base_le (by decide) hge] at h
        rw [List.head?_append_of_ne_nil _ Nat.toDigits_ne_nil] at h
        have hsmall := ih (n / 10) (by omega) h
        have hvalue := congrArg (Nat.ofDigitChars 10 · 0) hsmall
        simp only [Nat.ofDigitChars_ten_toDigits] at hvalue
        have hzero : n / 10 = 0 := hvalue.trans (by decide)
        omega

/-- A number is denoted by its decimal digits. -/
theorem denotes_toDigits (n : Nat) : Denotes (Nat.toDigits 10 n) n :=
  ⟨isNumeral_toDigits n, Nat.ofDigitChars_ten_toDigits⟩

/-- The parts after the first one each have a point before them. -/
theorem intercalate_cons (first : List Char) (parts : List (List Char)) :
    ['.'].intercalate (first :: parts) = first ++ parts.flatMap ('.' :: ·) := by
  induction parts generalizing first with
  | nil => simp
  | cons second parts ih =>
    rw [List.intercalate_cons_cons, ih, List.flatMap_cons, List.append_assoc]
    rfl

/-- A name is a numeral and any further ones, each after a point. -/
theorem isBlockId_iff {id : String} :
    IsBlockId id ↔ ∃ (first : List Char) (parts : List (List Char)), IsNumeral first ∧
      (∀ ds ∈ parts, IsNumeral ds) ∧ id.toList = first ++ parts.flatMap ('.' :: ·) := by
  constructor
  · intro h
    obtain ⟨parts, hne, hnum, hid⟩ := h
    cases parts with
    | nil => exact absurd rfl hne
    | cons first parts =>
      rw [intercalate_cons] at hid
      exact ⟨first, parts, hnum first List.mem_cons_self,
        fun ds hds => hnum ds (List.mem_cons_of_mem _ hds), hid⟩
  · intro h
    obtain ⟨first, parts, hfirst, hnum, hid⟩ := h
    refine ⟨first :: parts, List.cons_ne_nil _ _, ?_, by rw [intercalate_cons, hid]⟩
    intro ds hds
    rcases List.mem_cons.1 hds with rfl | hds
    · exact hfirst
    · exact hnum ds hds

/-! ## Instructions -/

/-- A text in brackets. -/
def bracketed (cs : List Char) : List Char :=
  '[' :: (cs ++ [']'])

/-- What may follow the word of an instruction. -/
inductive SpellsAfter : String → List Char → Instruction → Prop
  | colour {id : String} {r g b a : List Char} {c : Rgba} (hid : IsBlockId id)
      (hr : Denotes r c.r.toNat) (hg : Denotes g c.g.toNat) (hb : Denotes b c.b.toNat)
      (ha : Denotes a c.a.toNat) :
      SpellsAfter "color" (bracketed id.toList ++ bracketed (r ++ ',' :: g ++ ',' :: b ++ ',' :: a))
        (.colour id c)
  | pointCut {id : String} {x y : List Char} {p : Point} (hid : IsBlockId id)
      (hx : Denotes x p.x) (hy : Denotes y p.y) :
      SpellsAfter "cut" (bracketed id.toList ++ bracketed (x ++ ',' :: y)) (.pointCut id p)
  | verticalCut {id : String} {axis : Char} {ds : List Char} {x : Coordinate} (hid : IsBlockId id)
      (haxis : axis = 'x' ∨ axis = 'X') (hx : Denotes ds x.val) :
      SpellsAfter "cut" (bracketed id.toList ++ bracketed [axis] ++ bracketed ds)
        (.verticalCut id x)
  | horizontalCut {id : String} {axis : Char} {ds : List Char} {y : Coordinate}
      (hid : IsBlockId id) (haxis : axis = 'y' ∨ axis = 'Y') (hy : Denotes ds y.val) :
      SpellsAfter "cut" (bracketed id.toList ++ bracketed [axis] ++ bracketed ds)
        (.horizontalCut id y)
  | swap {id₁ id₂ : String} (hid₁ : IsBlockId id₁) (hid₂ : IsBlockId id₂) :
      SpellsAfter "swap" (bracketed id₁.toList ++ bracketed id₂.toList) (.swap id₁ id₂)
  | merge {id₁ id₂ : String} (hid₁ : IsBlockId id₁) (hid₂ : IsBlockId id₂) :
      SpellsAfter "merge" (bracketed id₁.toList ++ bracketed id₂.toList) (.merge id₁ id₂)

/-- The text without blanks spells the instruction. -/
def Spells (cs : List Char) (i : Instruction) : Prop :=
  ∃ (word : String) (w : List Char), cs = word.toList ++ w ∧ SpellsAfter word w i

/-- The blocks that an instruction names. -/
def Instruction.operands : Instruction → List String
  | .blank | .comment _ => []
  | .colour id _ | .pointCut id _ | .verticalCut id _ | .horizontalCut id _ => [id]
  | .swap id₁ id₂ | .merge id₁ id₂ => [id₁, id₂]

/-! ## Canonical texts -/

namespace Text

theorem compact_append (cs ds : List Char) : compact (cs ++ ds) = compact cs ++ compact ds :=
  List.filter_append ..

theorem compact_eq_self {cs : List Char} (h : ∀ c ∈ cs, ¬ IsBlank c) : compact cs = cs := by
  refine List.filter_eq_self.2 fun c hc => ?_
  simpa using h c hc

/-- No digit is a blank. -/
theorem not_isBlank_of_isDigit {c : Char} (h : c.isDigit) : ¬ IsBlank c := by
  have hrange : 48 ≤ c.toNat ∧ c.toNat ≤ 57 := Char.isDigit_iff_toNat.1 h
  unfold IsBlank
  omega

end Text

open Text

/-- Numerals have no blanks to lose. -/
theorem compact_numeral {ds : List Char} (h : IsNumeral ds) : compact ds = ds :=
  compact_eq_self fun d hd => not_isBlank_of_isDigit (h.digits d hd)

/-- Names of blocks have no blanks to lose. -/
theorem compact_blockId {id : String} (h : IsBlockId id) : compact id.toList = id.toList := by
  obtain ⟨first, parts, hfirst, hnum, hid⟩ := isBlockId_iff.1 h
  rw [hid, compact_append, compact_numeral hfirst]
  congr 1
  clear hid
  induction parts with
  | nil => rfl
  | cons ds parts ih =>
    rw [List.flatMap_cons, compact_append, ih fun e he => hnum e (List.mem_cons_of_mem _ he)]
    have hds := compact_numeral (hnum ds List.mem_cons_self)
    rw [← List.singleton_append, compact_append, hds]
    rfl

/-- A printed number is its decimal digits. -/
theorem compact_toString (n : Nat) : compact (toString n).toList = Nat.toDigits 10 n := by
  rw [show (toString n).toList = Nat.toDigits 10 n from Nat.toList_repr]
  exact compact_numeral (isNumeral_toDigits n)

/-- The canonical text of an instruction spells it. -/
theorem spells_text {i : Instruction} (hi : ¬ i.Inert) (hids : ∀ id ∈ i.operands, IsBlockId id) :
    Spells (compact i.text.toList) i := by
  cases i with
  | blank => exact absurd trivial hi
  | comment text => exact absurd trivial hi
  | colour id c =>
    have hid : IsBlockId id := hids id List.mem_cons_self
    refine ⟨_, _, ?_, .colour hid (denotes_toDigits _) (denotes_toDigits _) (denotes_toDigits _)
      (denotes_toDigits _)⟩
    show compact ("color [" ++ id ++ "] [" ++ toString c.r.toNat ++ ", " ++ toString c.g.toNat
      ++ ", " ++ toString c.b.toNat ++ ", " ++ toString c.a.toNat ++ "]").toList = _
    simp only [String.toList_append, compact_append, compact_toString, compact_blockId hid]
    simp only [bracketed, List.append_assoc, List.cons_append, List.nil_append]
    rfl
  | pointCut id p =>
    have hid : IsBlockId id := hids id List.mem_cons_self
    refine ⟨_, _, ?_, .pointCut hid (denotes_toDigits _) (denotes_toDigits _)⟩
    show compact ("cut [" ++ id ++ "] [" ++ toString p.x ++ ", " ++ toString p.y ++ "]").toList = _
    simp only [String.toList_append, compact_append, compact_toString, compact_blockId hid]
    simp only [bracketed, List.append_assoc, List.cons_append, List.nil_append]
    rfl
  | verticalCut id x =>
    have hid : IsBlockId id := hids id List.mem_cons_self
    refine ⟨_, _, ?_, .verticalCut hid (.inl rfl) (denotes_toDigits _)⟩
    show compact ("cut [" ++ id ++ "] [x] [" ++ toString x.val ++ "]").toList = _
    simp only [String.toList_append, compact_append, compact_toString, compact_blockId hid]
    simp only [bracketed, List.append_assoc, List.cons_append, List.nil_append]
    rfl
  | horizontalCut id y =>
    have hid : IsBlockId id := hids id List.mem_cons_self
    refine ⟨_, _, ?_, .horizontalCut hid (.inl rfl) (denotes_toDigits _)⟩
    show compact ("cut [" ++ id ++ "] [y] [" ++ toString y.val ++ "]").toList = _
    simp only [String.toList_append, compact_append, compact_toString, compact_blockId hid]
    simp only [bracketed, List.append_assoc, List.cons_append, List.nil_append]
    rfl
  | swap id₁ id₂ =>
    have hid₁ : IsBlockId id₁ := hids id₁ List.mem_cons_self
    have hid₂ : IsBlockId id₂ := hids id₂ (List.mem_cons_of_mem _ List.mem_cons_self)
    refine ⟨_, _, ?_, .swap hid₁ hid₂⟩
    show compact ("swap [" ++ id₁ ++ "] [" ++ id₂ ++ "]").toList = _
    simp only [String.toList_append, compact_append, compact_blockId hid₁, compact_blockId hid₂]
    simp only [bracketed, List.append_assoc, List.cons_append, List.nil_append]
    rfl
  | merge id₁ id₂ =>
    have hid₁ : IsBlockId id₁ := hids id₁ List.mem_cons_self
    have hid₂ : IsBlockId id₂ := hids id₂ (List.mem_cons_of_mem _ List.mem_cons_self)
    refine ⟨_, _, ?_, .merge hid₁ hid₂⟩
    show compact ("merge [" ++ id₁ ++ "] [" ++ id₂ ++ "]").toList = _
    simp only [String.toList_append, compact_append, compact_blockId hid₁, compact_blockId hid₂]
    simp only [bracketed, List.append_assoc, List.cons_append, List.nil_append]
    rfl

end Easel
