import Easel.Program.Basic
import Easel.Proofs.LineReading
import Easel.Proofs.Relocation

/-!
# Printing and reading again

The canonical text of an instruction is read as that instruction, as long as a line can
hold it at all: its blocks have names, and its remark has no blank at either end. Whatever
a line is read as is of that kind, and its text stays on one line, so a program that was
read and printed is read as the same program.

Main statement: `reading_inverts_printing`, for one line and for whole programs.
-/

namespace Easel

open Text

/-! ## Texts without blanks at their ends -/

namespace Text

/-- The text neither begins nor ends with a blank. -/
structure Trimmed (cs : List Char) : Prop where
  head : ∀ c ∈ cs.head?, ¬ IsBlank c
  last : ∀ c ∈ cs.getLast?, ¬ IsBlank c

theorem trimStart_cons_of_isBlank {c : Char} (hc : IsBlank c) (cs : List Char) :
    trimStart (c :: cs) = trimStart cs :=
  List.dropWhile_cons_of_pos (by simpa using hc)

/-- Nothing is cut off a text that does not begin with a blank. -/
theorem trimStart_eq_self {cs : List Char} (h : ∀ c ∈ cs.head?, ¬ IsBlank c) :
    trimStart cs = cs := by
  cases cs with
  | nil => rfl
  | cons c cs => exact List.dropWhile_cons_of_neg (by simpa using h c rfl)

/-- What is left after the blanks begins with none. -/
theorem not_isBlank_of_mem_head?_trimStart (cs : List Char) {c : Char}
    (hc : c ∈ (trimStart cs).head?) : ¬ IsBlank c := by
  rw [head?_trimStart] at hc
  simpa using (List.mem_filter.1 (List.mem_of_mem_head? hc)).2

theorem trimEnd_isPrefix (cs : List Char) : trimEnd cs <+: cs := by
  rw [← List.reverse_suffix, trimEnd, List.reverse_reverse]
  exact List.dropWhile_suffix _

/-- Trimming adds no character. -/
theorem trim_subset (cs : List Char) : trim cs ⊆ cs := by
  intro c hc
  exact (List.dropWhile_suffix _).subset ((trimEnd_isPrefix (trimStart cs)).subset hc)

/-- Nothing is cut off a text without blanks at its ends. -/
theorem trim_eq_self {cs : List Char} (h : Trimmed cs) : trim cs = cs := by
  have hlast : ∀ c ∈ cs.reverse.head?, ¬ IsBlank c := by
    rw [List.head?_reverse]
    exact h.last
  rw [trim, trimStart_eq_self h.head, trimEnd, trimStart_eq_self hlast, List.reverse_reverse]

/-- A text that was trimmed has no blanks at its ends. -/
theorem trimmed_trim (cs : List Char) : Trimmed (trim cs) where
  head c hc := by
    -- what is left of the text begins where the text begins
    obtain ⟨rest, hrest⟩ := trimEnd_isPrefix (trimStart cs)
    refine not_isBlank_of_mem_head?_trimStart cs ?_
    rw [← hrest, List.head?_append]
    rw [Option.mem_def, trim] at hc
    rw [hc]
    rfl
  last c hc := by
    rw [trim, trimEnd, List.getLast?_reverse] at hc
    exact not_isBlank_of_mem_head?_trimStart _ hc

end Text

/-! ## One line -/

/-- A line can hold the instruction: its blocks have names, and its remark neither begins
nor ends with a blank. -/
structure Instruction.Writable (i : Instruction) : Prop where
  operands : ∀ id ∈ i.operands, IsBlockId id
  remark : ∀ text, i = .comment text → Trimmed text.toList

/-- After the mark of a remark everything is the remark. -/
theorem ofChars_comment (cs : List Char) :
    Instruction.ofChars ('#' :: cs) = .ok (.comment (String.ofList (trim cs))) := by
  have htrim : trimStart ('#' :: cs) = '#' :: cs :=
    trimStart_eq_self fun c hc => by cases hc; decide
  unfold Instruction.ofChars
  rw [htrim]
  rfl

/-- An instruction that a line can hold is read from its own text, whatever the number of the
line. -/
theorem Instruction.Writable.ofLine_text {i : Instruction} (hi : i.Writable) (n : Nat) :
    Instruction.ofLine n i.text = .ok i := by
  by_cases hinert : i.Inert
  · cases i with
    | blank => exact ofLine_eq_ok_iff.2 rfl
    | comment text =>
      have hchars : (Instruction.comment text).text.toList = '#' :: ' ' :: text.toList := by
        show ("# " ++ text).toList = _
        rw [String.toList_append]
        rfl
      have htrim : trim (' ' :: text.toList) = text.toList := by
        rw [trim, trimStart_cons_of_isBlank (by decide)]
        exact trim_eq_self (hi.remark text rfl)
      rw [ofLine_eq_ok_iff, hchars, ofChars_comment, htrim, String.ofList_toList]
    | _ => exact hinert.elim
  · exact ofLine_of_spells (spells_text hinert hi.operands) n

/-- The blocks of an instruction that is spelled have names of the grammar. -/
theorem SpellsAfter.isBlockId {word : String} {cs : List Char} {i : Instruction}
    (h : SpellsAfter word cs i) : ∀ id ∈ i.operands, IsBlockId id := by
  intro id hid
  cases h with
  | colour hid' | pointCut hid' | verticalCut hid' | horizontalCut hid' =>
    rw [List.mem_singleton.1 hid]
    exact hid'
  | swap hid₁ hid₂ | merge hid₁ hid₂ =>
    rcases List.mem_cons.1 hid with rfl | hid
    · exact hid₁
    · rw [List.mem_singleton.1 hid]
      exact hid₂

/-- What is spelled acts on the canvas. -/
theorem SpellsAfter.not_inert {word : String} {cs : List Char} {i : Instruction}
    (h : SpellsAfter word cs i) : ¬ i.Inert := by
  intro hinert
  cases h <;> exact hinert

/-- What is read is nothing, a remark without blanks at its ends that is part of the line,
or what the line spells. -/
theorem ofChars_cases {cs : List Char} {i : Instruction} (h : Instruction.ofChars cs = .ok i) :
    i = .blank ∨
      (∃ text : List Char, text ⊆ cs ∧ Trimmed text ∧ i = .comment (String.ofList text)) ∨
        Spells (compact cs) i := by
  cases hcs : trimStart cs with
  | nil =>
    unfold Instruction.ofChars at h
    rw [hcs] at h
    cases h
    exact .inl rfl
  | cons c rest =>
    by_cases hc : c = '#'
    · subst hc
      unfold Instruction.ofChars at h
      rw [hcs] at h
      cases h
      refine .inr (.inl ⟨trim rest, ?_, trimmed_trim rest, rfl⟩)
      have hrest : rest ⊆ trimStart cs := hcs ▸ List.subset_cons_self _ rest
      exact fun d hd => (List.dropWhile_suffix _).subset (hrest (trim_subset rest hd))
    · refine .inr (.inr ((ofChars_eq_ok_iff ?_ ?_ i).1 h))
      · simp [← head?_trimStart, hcs]
      · simpa [← head?_trimStart, hcs] using hc

/-- Whatever a line is read as, a line can hold. -/
theorem writable_of_ofChars {cs : List Char} {i : Instruction}
    (h : Instruction.ofChars cs = .ok i) : i.Writable := by
  rcases ofChars_cases h with rfl | ⟨text, -, htext, rfl⟩ | ⟨word, w, -, hw⟩
  · exact ⟨nofun, nofun⟩
  · refine ⟨nofun, fun remark hremark => ?_⟩
    cases hremark
    rwa [String.toList_ofList]
  · refine ⟨hw.isBlockId, fun remark hremark => ?_⟩
    subst hremark
    exact absurd trivial hw.not_inert

/-! ## Texts that stay on one line -/

/-- A text without blanks stays on one line. -/
theorem not_mem_of_compact_eq_self {cs : List Char} (h : compact cs = cs) : '\n' ∉ cs := by
  intro hmem
  rw [← h] at hmem
  have hblank : ¬ IsBlank '\n' := by simpa using (List.mem_filter.1 hmem).2
  exact hblank (by decide)

theorem newline_not_mem_blockId {id : String} (h : IsBlockId id) : '\n' ∉ id.toList :=
  not_mem_of_compact_eq_self (compact_blockId h)

theorem newline_not_mem_toString (n : Nat) : '\n' ∉ (toString n).toList := by
  rw [show (toString n).toList = Nat.toDigits 10 n from Nat.toList_repr]
  exact not_mem_of_compact_eq_self (compact_numeral (isNumeral_toDigits n))

/-- The text of what was read from one line stays on one line. -/
theorem newline_not_mem_text {cs : List Char} {i : Instruction}
    (h : Instruction.ofChars cs = .ok i) (hcs : '\n' ∉ cs) : '\n' ∉ i.text.toList := by
  have hnum := newline_not_mem_toString
  have hid {id : String} (hmem : id ∈ i.operands) : '\n' ∉ id.toList :=
    newline_not_mem_blockId ((writable_of_ofChars h).operands id hmem)
  cases i with
  | blank => exact List.not_mem_nil
  | comment text =>
    have htext : '\n' ∉ text.toList := by
      rcases ofChars_cases h with h | ⟨remark, hsub, -, hi⟩ | ⟨word, w, -, hw⟩
      · cases h
      · cases hi
        rw [String.toList_ofList]
        exact fun hmem => hcs (hsub hmem)
      · exact absurd trivial hw.not_inert
    show '\n' ∉ ("# " ++ text).toList
    simp [htext]
  | colour id c =>
    have hname : '\n' ∉ id.toList := hid List.mem_cons_self
    show '\n' ∉ ("color [" ++ id ++ "] [" ++ toString c.r.toNat ++ ", " ++ toString c.g.toNat
      ++ ", " ++ toString c.b.toNat ++ ", " ++ toString c.a.toNat ++ "]").toList
    simp only [String.toList_append, List.mem_append, hname, hnum, or_false]
    decide
  | pointCut id p =>
    have hname : '\n' ∉ id.toList := hid List.mem_cons_self
    show '\n' ∉ ("cut [" ++ id ++ "] [" ++ toString p.x ++ ", " ++ toString p.y ++ "]").toList
    simp only [String.toList_append, List.mem_append, hname, hnum, or_false]
    decide
  | verticalCut id x =>
    have hname : '\n' ∉ id.toList := hid List.mem_cons_self
    show '\n' ∉ ("cut [" ++ id ++ "] [x] [" ++ toString x.val ++ "]").toList
    simp only [String.toList_append, List.mem_append, hname, hnum, or_false]
    decide
  | horizontalCut id y =>
    have hname : '\n' ∉ id.toList := hid List.mem_cons_self
    show '\n' ∉ ("cut [" ++ id ++ "] [y] [" ++ toString y.val ++ "]").toList
    simp only [String.toList_append, List.mem_append, hname, hnum, or_false]
    decide
  | swap id₁ id₂ =>
    have hname₁ : '\n' ∉ id₁.toList := hid List.mem_cons_self
    have hname₂ : '\n' ∉ id₂.toList := hid (List.mem_cons_of_mem _ List.mem_cons_self)
    show '\n' ∉ ("swap [" ++ id₁ ++ "] [" ++ id₂ ++ "]").toList
    simp only [String.toList_append, List.mem_append, hname₁, hname₂, or_false]
    decide
  | merge id₁ id₂ =>
    have hname₁ : '\n' ∉ id₁.toList := hid List.mem_cons_self
    have hname₂ : '\n' ∉ id₂.toList := hid (List.mem_cons_of_mem _ List.mem_cons_self)
    show '\n' ∉ ("merge [" ++ id₁ ++ "] [" ++ id₂ ++ "]").toList
    simp only [String.toList_append, List.mem_append, hname₁, hname₂, or_false]
    decide

/-! ## Programs -/

namespace Program

/-- Instructions on lines, the first of which has the given number. -/
def numbered (line : Nat) : List Instruction → List ProgramLine
  | [] => []
  | i :: is => { line, instruction := i } :: numbered (line + 1) is

/-- Numbering changes no instruction. -/
theorem map_instruction_numbered (n : Nat) (is : List Instruction) :
    (numbered n is).map (·.instruction) = is := by
  induction is generalizing n with
  | nil => rfl
  | cons i is ih => rw [numbered, List.map_cons, ih]

/-- Lines are read one by one and numbered as they come. -/
theorem ofLines_eq_ok_iff {n : Nat} {texts : List String} {ls : List ProgramLine} :
    ofLines n texts = .ok ls ↔ ∃ is, ls = numbered n is ∧
      List.Forall₂ (fun text i => Instruction.ofChars text.toList = .ok i) texts is := by
  induction texts generalizing n ls with
  | nil =>
    simp only [ofLines, List.forall₂_nil_left_iff, exists_eq_right, numbered, Except.ok.injEq]
    exact eq_comm
  | cons text texts ih =>
    simp only [ofLines, bind_eq_ok_iff, ofLine_eq_ok_iff, List.forall₂_cons_left_iff]
    constructor
    · intro h
      obtain ⟨i, hi, rest, hrest, hls⟩ := h
      obtain ⟨is, rfl, his⟩ := ih.1 hrest
      cases hls
      exact ⟨i :: is, rfl, i, is, hi, his, rfl⟩
    · intro h
      obtain ⟨_, rfl, i, is, hi, his, rfl⟩ := h
      exact ⟨i, hi, numbered (n + 1) is, ih.2 ⟨is, rfl, his⟩, rfl⟩

/-- A program is read line by line. -/
theorem ofText_eq_ok_iff {text : String} {p : Program} :
    ofText text = .ok p ↔ ∃ is, p = { lines := numbered 0 is } ∧
      List.Forall₂ (fun cs i => Instruction.ofChars cs = .ok i) (text.toList.splitOn '\n') is := by
  simp only [ofText, bind_eq_ok_iff, ofLines_eq_ok_iff, List.forall₂_map_left_iff,
    String.toList_ofList]
  constructor
  · intro h
    obtain ⟨_, ⟨is, rfl, his⟩, hp⟩ := h
    cases hp
    exact ⟨is, rfl, his⟩
  · intro h
    obtain ⟨is, rfl, his⟩ := h
    exact ⟨_, ⟨is, rfl, his⟩, rfl⟩

/-- A program is printed as the texts of its instructions, each on a line. -/
theorem toList_text_numbered (n : Nat) (is : List Instruction) :
    (text { lines := numbered n is }).toList = ['\n'].intercalate (is.map (·.text.toList)) := by
  have hmap : (numbered n is).map (·.instruction.text) = is.map (·.text) := by
    conv_rhs => rw [← map_instruction_numbered n is, List.map_map]
    rfl
  rw [text, hmap, String.toList_intercalate, List.map_map]
  rfl

end Program

/-- A piece of a text between two ends of lines has none in it. -/
theorem newline_not_mem_of_mem_splitOn {cs line : List Char} (h : line ∈ cs.splitOn '\n') :
    '\n' ∉ line := by
  induction cs generalizing line with
  | nil =>
    rw [List.splitOn_nil, List.mem_singleton] at h
    subst h
    exact List.not_mem_nil
  | cons c cs ih =>
    rw [List.splitOn_cons_eq_if_modifyHead] at h
    by_cases hc : c = '\n'
    · rw [if_pos (by simpa using hc)] at h
      rcases List.mem_cons.1 h with rfl | h
      · exact List.not_mem_nil
      · exact ih h
    · rw [if_neg (by simpa using hc)] at h
      cases hsplit : cs.splitOn '\n' with
      | nil => exact absurd hsplit (List.splitOn_ne_nil _ _)
      | cons first rest =>
        rw [hsplit, List.modifyHead_cons] at h
        rcases List.mem_cons.1 h with rfl | h
        · refine List.not_mem_cons_of_ne_of_not_mem (Ne.symm hc) (ih ?_)
          rw [hsplit]
          exact List.mem_cons_self
        · refine ih ?_
          rw [hsplit]
          exact List.mem_cons_of_mem _ h

/-- The texts of the instructions, put on lines of their own, are split into the same texts
again. -/
theorem splitOn_text {lines : List (List Char)} {is : List Instruction} (hne : lines ≠ [])
    (hlines : ∀ line ∈ lines, '\n' ∉ line)
    (h : List.Forall₂ (fun cs i => Instruction.ofChars cs = .ok i) lines is) (n : Nat) :
    (Program.text { lines := Program.numbered n is }).toList.splitOn '\n'
      = is.map (·.text.toList) := by
  rw [Program.toList_text_numbered]
  refine List.splitOn_intercalate '\n' ?_ ?_
  · intro line hline
    obtain ⟨i, hi, rfl⟩ := List.mem_map.1 hline
    obtain ⟨cs, hcs, hread⟩ := exists_of_forall₂ h hi
    exact newline_not_mem_text hread (hlines cs hcs)
  · intro hnil
    rw [List.map_eq_nil_iff] at hnil
    subst hnil
    exact hne (List.forall₂_nil_right_iff.1 h)

/-- Every instruction that a line can hold is read from its own text, whatever the number of
the line. A text that is read as a program has a canonical spelling, and that spelling is read
as the same program and printed as it stands. -/
theorem reading_inverts_printing :
    (∀ (i : Instruction) (n : Nat), i.Writable → Instruction.ofLine n i.text = .ok i) ∧
      ∀ (text : String) (p : Program), Program.ofText text = .ok p →
        Program.ofText p.text = .ok p ∧ Program.text <$> Program.ofText p.text = .ok p.text := by
  refine ⟨fun i n hi => hi.ofLine_text n, fun text p hp => ?_⟩
  obtain ⟨is, rfl, his⟩ := Program.ofText_eq_ok_iff.1 hp
  have hsplit := splitOn_text (List.splitOn_ne_nil _ _)
    (fun line => newline_not_mem_of_mem_splitOn) his 0
  have hagain : Program.ofText (Program.text { lines := Program.numbered 0 is })
      = .ok { lines := Program.numbered 0 is } := by
    refine Program.ofText_eq_ok_iff.2 ⟨is, rfl, ?_⟩
    rw [hsplit, List.forall₂_map_left_iff, List.forall₂_same]
    intro i hi
    obtain ⟨cs, -, hread⟩ := exists_of_forall₂ his hi
    exact ofLine_eq_ok_iff.1 ((writable_of_ofChars hread).ofLine_text 0)
  refine ⟨hagain, ?_⟩
  rw [hagain]
  rfl

/-- A remark may begin with its own mark and have blanks of any kind inside; blanks around it,
and around an instruction, are not printed again. -/
theorem reading_inverts_printing_remarks :
    (Instruction.comment "#\u3000b").Writable ∧
      Instruction.ofLine 7 (Instruction.comment "#\u3000b").text = .ok (.comment "#\u3000b") ∧
      ∃ p : Program, p.lines = [⟨0, .blank⟩, ⟨1, .comment "#"⟩, ⟨2, .verticalCut "0" 7⟩] ∧
        Program.ofText "\u2003\n #\u00a0# \r\n\tcut[0] [ X][7]\r" = .ok p ∧
        Program.ofText p.text = .ok p ∧ Program.text <$> Program.ofText p.text = .ok p.text := by
  have hremark : (Instruction.comment "#\u3000b").Writable := by
    refine ⟨nofun, fun text htext => ?_⟩
    cases htext
    constructor
    · rintro c ⟨⟩
      decide
    · rintro c ⟨⟩
      decide
  have hid : IsBlockId "0" :=
    ⟨[Nat.toDigits 10 0], List.cons_ne_nil _ _, by simpa using isNumeral_toDigits 0, by decide⟩
  have hcut : Instruction.ofChars "\tcut[0] [ X][7]\r".toList = .ok (.verticalCut "0" 7) := by
    have hspells : SpellsAfter "cut"
        (bracketed "0".toList ++ bracketed ['X'] ++ bracketed (Nat.toDigits 10 7))
        (.verticalCut "0" 7) := .verticalCut hid (.inr rfl) (denotes_toDigits 7)
    exact (ofChars_eq_ok_iff (by decide) (by decide) _).2 ⟨"cut", _, by decide, hspells⟩
  have hread : Program.ofText "\u2003\n #\u00a0# \r\n\tcut[0] [ X][7]\r" = .ok
      { lines := [⟨0, .blank⟩, ⟨1, .comment "#"⟩, ⟨2, .verticalCut "0" 7⟩] } := by
    have hsplit : "\u2003\n #\u00a0# \r\n\tcut[0] [ X][7]\r".toList.splitOn '\n'
        = ["\u2003".toList, " #\u00a0# \r".toList, "\tcut[0] [ X][7]\r".toList] := by decide
    refine Program.ofText_eq_ok_iff.2 ⟨[.blank, .comment "#", .verticalCut "0" 7], rfl, ?_⟩
    rw [hsplit]
    exact .cons rfl (.cons rfl (.cons hcut .nil))
  exact ⟨hremark, reading_inverts_printing.1 _ 7 hremark, _, rfl, hread,
    reading_inverts_printing.2 _ _ hread⟩

end Easel
