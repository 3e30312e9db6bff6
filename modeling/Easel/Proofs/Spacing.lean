import Easel.Proofs.Provenance

/-!
# Blank lines, remarks and blanks

How a program is laid out shows in nothing but the numbers of its lines. A line that is blank
or a remark can be put in anywhere: what is told of the lines behind it is told of the next
line, and all else stays as it is (`run_insertLine`). A blank can be put in anywhere on a line
that is neither, also inside a number or a word, since such a line is read without its blanks
(`Spaced.ofText_eq`).

Numbers of lines are changed by `relocate`, on errors, on lines of a program and on work;
reading and running commute with it, so only the two ends of a text have to be looked at.

Main statement: `spacing_does_not_matter`.
-/

namespace Easel

open Text

/-! ## Texts with other lines -/

namespace Text

/-- The lines of a text. -/
def lines (text : String) : List (List Char) :=
  text.toList.splitOn '\n'

/-- The text of lines. -/
def ofLines (lines : List (List Char)) : String :=
  String.ofList (['\n'].intercalate lines)

/-- The text with one more line, which gets the number `k`. -/
def insertLine (k : Nat) (line : List Char) (text : String) : String :=
  ofLines ((lines text).take k ++ line :: (lines text).drop k)

/-- The text with another line in the place of the line `k`. -/
def replaceLine (k : Nat) (line : List Char) (text : String) : String :=
  ofLines ((lines text).set k line)

/-- The line does nothing: all of it is blank, or its first character that is not is a hash. -/
def Idle (cs : List Char) : Prop :=
  (∀ c ∈ cs, IsBlank c) ∨ (trimStart cs).head? = some '#'

/-- The second text is the first one with blanks put in, none of which ends a line. -/
inductive Spaced : List Char → List Char → Prop
  | nil : Spaced [] []
  | keep (c : Char) {cs ds : List Char} (h : Spaced cs ds) : Spaced (c :: cs) (c :: ds)
  | blank {c : Char} {cs ds : List Char} (hc : IsBlank c) (hline : c ≠ '\n') (h : Spaced cs ds) :
      Spaced cs (c :: ds)

variable {cs ds : List Char}

theorem lines_ofLines {ls : List (List Char)} (hne : ls ≠ []) (h : ∀ line ∈ ls, '\n' ∉ line) :
    lines (ofLines ls) = ls := by
  unfold lines ofLines
  rw [String.toList_ofList]
  exact List.splitOn_intercalate '\n' h hne

theorem newline_not_mem_of_mem_lines {text : String} {line : List Char} (h : line ∈ lines text) :
    '\n' ∉ line :=
  newline_not_mem_of_mem_splitOn h

theorem lines_insertLine {line : List Char} (hline : '\n' ∉ line) (k : Nat) (text : String) :
    lines (insertLine k line text) = (lines text).take k ++ line :: (lines text).drop k := by
  refine lines_ofLines (by simp) fun l hl => ?_
  rcases List.mem_append.1 hl with hl | hl
  · exact newline_not_mem_of_mem_lines (List.mem_of_mem_take hl)
  · rcases List.mem_cons.1 hl with rfl | hl
    · exact hline
    · exact newline_not_mem_of_mem_lines (List.mem_of_mem_drop hl)

theorem lines_replaceLine {line : List Char} (hline : '\n' ∉ line) (k : Nat) (text : String) :
    lines (replaceLine k line text) = (lines text).set k line := by
  refine lines_ofLines (fun hnil => ?_) fun l hl => ?_
  · rw [List.set_eq_nil_iff] at hnil
    exact List.splitOn_ne_nil _ _ hnil
  · rcases List.mem_or_eq_of_mem_set hl with hl | rfl
    · exact newline_not_mem_of_mem_lines hl
    · exact hline

theorem idle_iff : Idle cs ↔ (compact cs).head? = none ∨ (compact cs).head? = some '#' := by
  unfold Idle
  rw [head?_trimStart, List.head?_eq_none_iff, compact, List.filter_eq_nil_iff]
  simp only [decide_not, Bool.not_eq_true, Bool.not_eq_false', decide_eq_true_eq]

/-- A line that does nothing is an instruction that does nothing. -/
theorem Idle.ofChars (h : Idle cs) : ∃ i : Instruction, Instruction.ofChars cs = .ok i ∧
    i.Inert := by
  rw [idle_iff, ← head?_trimStart] at h
  unfold Instruction.ofChars
  rcases h with h | h
  · rw [List.head?_eq_none_iff.1 h]
    exact ⟨_, rfl, trivial⟩
  · obtain ⟨rest, hrest⟩ := List.head?_eq_some_iff.1 h
    rw [hrest]
    exact ⟨_, rfl, trivial⟩

theorem Spaced.compact_eq (h : Spaced cs ds) : compact ds = compact cs := by
  induction h with
  | nil => rfl
  | keep c _ ih =>
    unfold compact at ih ⊢
    rw [List.filter_cons, List.filter_cons, ih]
  | blank hc _ _ ih =>
    rw [← ih]
    exact List.filter_cons_of_neg (by simpa using hc)

theorem Spaced.newline_not_mem (h : Spaced cs ds) (hcs : '\n' ∉ cs) : '\n' ∉ ds := by
  induction h with
  | nil => exact hcs
  | keep c _ ih =>
    rw [List.mem_cons, not_or] at hcs ⊢
    exact ⟨hcs.1, ih hcs.2⟩
  | blank _ hline _ ih => exact List.not_mem_cons_of_ne_of_not_mem hline.symm (ih hcs)

theorem Spaced.refl (cs : List Char) : Spaced cs cs := by
  induction cs with
  | nil => exact .nil
  | cons c _ ih => exact .keep c ih

/-- One blank may stand at any place. -/
theorem Spaced.insert {c : Char} (hc : IsBlank c) (hline : c ≠ '\n') (cs ds : List Char) :
    Spaced (cs ++ ds) (cs ++ c :: ds) := by
  induction cs with
  | nil => exact .blank hc hline (.refl ds)
  | cons d _ ih => exact .keep d ih

/-- A line is read without its blanks, unless it does nothing. -/
theorem ofChars_of_compact (h : ¬ Idle cs) :
    Instruction.ofChars cs = (·.1) <$> Scan.instruction { rest := compact cs } := by
  rw [idle_iff, ← head?_trimStart, not_or] at h
  unfold Instruction.ofChars
  split
  next hnil => exact absurd (congrArg List.head? hnil) h.1
  next text hhash => exact absurd (congrArg List.head? hhash) h.2
  next => rfl

theorem Spaced.ofLine_eq (h : Spaced cs ds) (hcs : ¬ Idle cs) (n : Nat) :
    Instruction.ofLine n (String.ofList ds) = Instruction.ofLine n (String.ofList cs) := by
  have hds : ¬ Idle ds := by rwa [idle_iff, h.compact_eq, ← idle_iff]
  unfold Instruction.ofLine
  rw [String.toList_ofList, String.toList_ofList, ofChars_of_compact hcs, ofChars_of_compact hds,
    h.compact_eq]

end Text

/-! ## Other numbers for lines -/

/-- The number of a line after one more line has been put in at `k`. -/
def skip (k line : Nat) : Nat :=
  if k ≤ line then line + 1 else line

/-- The error with another number for its line, if it tells of one. -/
def Error.relocate (f : Nat → Nat) : Error → Error
  | malformed line text fault => malformed (f line) text fault
  | unreadable line reason => unreadable (f line) reason
  | atLine line cause => atLine (f line) cause
  | e => e

/-- The failure with another number for its line, if it tells of one. -/
def Failure.relocate (f : Nat → Nat) : Failure → Failure
  | refused cause => refused (cause.relocate f)
  | overflow kind => overflow kind

/-- The instruction on a line with another number. -/
def ProgramLine.relocate (f : Nat → Nat) (l : ProgramLine) : ProgramLine :=
  { l with line := f l.line }

/-- The work with other numbers for the lines that it tells of. -/
def Edit.relocate {α : Type} (f : Nat → Nat) (x : Edit α) : Edit α := fun s =>
  match x s with
  | .ok a t => .ok a t
  | .error e t => .error (e.relocate f) t

theorem Error.relocate_of_line?_eq_none {e : Error} (h : e.line? = none) (f : Nat → Nat) :
    e.relocate f = e := by
  cases e <;> first | rfl | cases h

namespace Program

variable {k n : Nat}

/-- The lines that act on the canvas, of lines that are read from the given number on. -/
def activeOf (n : Nat) (texts : List String) : Except Error (List ProgramLine) :=
  (fun ls => effective { lines := ls }) <$> ofLines n texts

/-- What is read of lines, with other numbers for them. -/
def relocate (f : Nat → Nat) (x : Except Error (List ProgramLine)) :
    Except Error (List ProgramLine) :=
  (List.map (ProgramLine.relocate f) <$> x).mapError (Error.relocate f)

theorem effective_relocate (f : Nat → Nat) (ls : List ProgramLine) :
    effective { lines := ls.map (ProgramLine.relocate f) }
      = (effective { lines := ls }).map (ProgramLine.relocate f) :=
  List.filter_map ..

theorem activeOf_cons (n : Nat) (text : String) (texts : List String) :
    activeOf n (text :: texts) = (do
      let i ← Instruction.ofLine n text
      (effective { lines := [{ line := n, instruction := i }] } ++ ·) <$>
        activeOf (n + 1) texts) := by
  unfold activeOf
  rw [ofLines]
  cases Instruction.ofLine n text with
  | error e => rfl
  | ok i =>
    cases ofLines (n + 1) texts with
    | error e => rfl
    | ok ls =>
      show Except.ok (effective { lines := [{ line := n, instruction := i }] ++ ls }) = _
      rw [effective, List.filter_append]
      rfl

/-- Another number for a line comes to reading it under that number. -/
theorem relocate_cons (f : Nat → Nat) (n : Nat) (text : String)
    (x : Except Error (List ProgramLine)) :
    relocate f (do
        let i ← Instruction.ofLine n text
        (effective { lines := [{ line := n, instruction := i }] } ++ ·) <$> x)
      = (do
        let i ← Instruction.ofLine (f n) text
        (effective { lines := [{ line := f n, instruction := i }] } ++ ·) <$> relocate f x) := by
  unfold Instruction.ofLine
  cases Instruction.ofChars text.toList with
  | error fault => rfl
  | ok i =>
    cases x with
    | error e => rfl
    | ok ls =>
      show Except.ok (List.map _ (_ ++ ls)) = Except.ok (_ ++ ls.map _)
      rw [List.map_append]
      congr 2
      exact (effective_relocate f [{ line := n, instruction := i }]).symm

/-- Lines that begin one number later are told of as the next ones. -/
theorem activeOf_succ (h : k ≤ n) (texts : List String) :
    activeOf (n + 1) texts = relocate (skip k) (activeOf n texts) := by
  induction texts generalizing n with
  | nil => rfl
  | cons text texts ih =>
    rw [activeOf_cons, activeOf_cons, ih (Nat.le_succ_of_le h), relocate_cons]
    unfold skip
    rw [if_pos h]

/-- A line that does nothing is put in, and the lines behind it are told of as the next ones. -/
theorem activeOf_insert {line : List Char} (hline : Idle line) (before rest : List String) :
    activeOf n (before ++ String.ofList line :: rest)
      = relocate (skip (n + before.length)) (activeOf n (before ++ rest)) := by
  induction before generalizing n with
  | nil =>
    obtain ⟨i, hi, hinert⟩ := hline.ofChars
    have hread : Instruction.ofLine n (String.ofList line) = .ok i := by
      rw [ofLine_eq_ok_iff, String.toList_ofList]
      exact hi
    have hnone : effective { lines := [{ line := n, instruction := i }] } = [] :=
      List.filter_cons_of_neg (by simpa using hinert)
    rw [List.nil_append, activeOf_cons, hread, activeOf_succ (Nat.le_refl n)]
    show (_ ++ ·) <$> relocate (skip n) (activeOf n rest) = relocate (skip n) (activeOf n rest)
    rw [hnone]
    exact id_map _
  | cons text before ih =>
    have hskip : skip (n + (text :: before).length) n = n := by
      rw [skip, if_neg (by rw [List.length_cons]; omega)]
    have hlength : n + (text :: before).length = n + 1 + before.length := by
      rw [List.length_cons]
      omega
    rw [List.cons_append, List.cons_append, activeOf_cons, activeOf_cons, ih, relocate_cons,
      ← hlength, hskip]

theorem ofText_eq (text : String) : ofText text = (do
    let ls ← ofLines 0 ((Text.lines text).map String.ofList)
    return { lines := ls }) := rfl

/-- A line can be replaced by another one that reads as the same instruction. -/
theorem ofLines_set {text text' : String}
    (h : ∀ n, Instruction.ofLine n text' = Instruction.ofLine n text) {texts : List String}
    {k : Nat} (hk : texts[k]? = some text) (n : Nat) :
    ofLines n (texts.set k text') = ofLines n texts := by
  induction texts generalizing k n with
  | nil => rfl
  | cons first texts ih =>
    cases k with
    | zero =>
      rw [List.getElem?_cons_zero, Option.some.injEq] at hk
      rw [List.set_cons_zero, ofLines, ofLines, h, hk]
    | succ k =>
      rw [List.getElem?_cons_succ] at hk
      rw [List.set_cons_succ, ofLines, ofLines, ih hk]

/-- Blanks that are put in on a line that does something are not seen. -/
theorem ofText_replaceLine {text : String} {k : Nat} {cs ds : List Char}
    (hk : (Text.lines text)[k]? = some cs) (hcs : ¬ Idle cs) (h : Spaced cs ds) :
    ofText (replaceLine k ds text) = ofText text := by
  have hds : '\n' ∉ ds :=
    h.newline_not_mem (newline_not_mem_of_mem_lines (List.mem_of_getElem? hk))
  have hset : ofLines 0 (((Text.lines text).set k ds).map String.ofList)
      = ofLines 0 ((Text.lines text).map String.ofList) := by
    rw [List.map_set]
    refine ofLines_set (h.ofLine_eq hcs) ?_ 0
    rw [List.getElem?_map, hk]
    rfl
  rw [ofText_eq, ofText_eq, lines_replaceLine hds, hset]

end Program

/-! ## Runs -/

namespace Edit

/-- Lines with other numbers are carried out in the same way, and told of with their numbers. -/
theorem runLines_relocate (f : Nat → Nat) (sum : Nat) (ls : List ProgramLine) :
    runLines sum (ls.map (ProgramLine.relocate f)) = relocate f (runLines sum ls) := by
  induction ls generalizing sum with
  | nil => rfl
  | cons l ls ih =>
    funext s
    rw [List.map_cons, runLines, runLines]
    simp only [ih, relocate, bind, EStateM.bind, atLine, ProgramLine.relocate]
    cases apply l.instruction s with
    | error e t => cases e <;> rfl
    | ok cost t =>
      dsimp only
      unfold addAmounts
      by_cases hfits : sum + cost < 18446744073709551616
      · rw [if_pos hfits]
        rfl
      · rw [if_neg hfits]
        rfl

end Edit

/-- A run is a run of the lines that act on the canvas. -/
theorem Run.ofText_eq_runLines (text : String) (layout : Option Layout) (table : CostTable) :
    ofText text layout table = (do
      let ls ← orRefuse (Program.activeOf 0 ((lines text).map String.ofList))
      let c ← orRefuse (Program.canvas { lines := [] } layout)
      ofResult (Edit.runLines 0 ls (.ofCanvas c table))) := by
  unfold ofText Program.activeOf
  rw [Program.ofText_eq]
  cases Program.ofLines 0 ((lines text).map String.ofList) <;> rfl

/-- A line that does nothing is put in: the run comes to the same end, and a line behind it that
is told of is the next one. -/
theorem Run.ofText_insertLine {text : String} {k : Nat} {line : List Char}
    (hk : k ≤ (lines text).length) (hnewline : '\n' ∉ line) (hline : Idle line)
    (layout : Option Layout) (table : CostTable) :
    ofText (insertLine k line text) layout table
      = (ofText text layout table).mapError (Failure.relocate (skip k)) := by
  have hlength : ((lines text).take k).length = k := List.length_take_of_le hk
  have hactive := Program.activeOf_insert (n := 0) hline
    (((lines text).take k).map String.ofList) (((lines text).drop k).map String.ofList)
  rw [← List.map_cons, ← List.map_append, ← List.map_append, List.take_append_drop,
    List.length_map, hlength, Nat.zero_add, ← lines_insertLine hnewline] at hactive
  rw [ofText_eq_runLines, ofText_eq_runLines, hactive]
  cases Program.activeOf 0 ((lines text).map String.ofList) with
  | error e => rfl
  | ok ls =>
    cases hcanvas : Program.canvas { lines := [] } layout with
    | error e =>
      show Except.error _ = Except.error (Failure.refused (e.relocate _))
      rw [Error.relocate_of_line?_eq_none (Program.lineless_canvas _ _ e hcanvas)]
    | ok c =>
      show ofResult (Edit.runLines 0 (ls.map _) (.ofCanvas c table))
        = (ofResult (Edit.runLines 0 ls (.ofCanvas c table))).mapError _
      rw [Edit.runLines_relocate, Edit.relocate]
      cases Edit.runLines 0 ls (.ofCanvas c table) <;> rfl

/-- A blank line or a remark can be put in anywhere in a text, on any canvas and with any table
of prices: the run leaves the same canvas and costs as much, or fails in the same way, except
that a line behind the new one that is told of, in a text that cannot be read or of an
instruction that fails, is told of as the next one. And blanks can be put in anywhere on a line
that is neither, as long as they do not end the line: the text is read as the same program, or
is refused for the same reason and on the same line. -/
theorem spacing_does_not_matter (text : String) :
    (∀ (k : Nat) (line : List Char), k ≤ (lines text).length → '\n' ∉ line → Idle line →
      ∀ (layout : Option Layout) (table : CostTable),
        Run.ofText (insertLine k line text) layout table
          = (Run.ofText text layout table).mapError (Failure.relocate (skip k))) ∧
    ∀ (k : Nat) (cs ds : List Char), (lines text)[k]? = some cs → ¬ Idle cs → Spaced cs ds →
      Program.ofText (replaceLine k ds text) = Program.ofText text :=
  ⟨fun _ _ hk hnewline hline layout table => Run.ofText_insertLine hk hnewline hline layout table,
    fun _ _ _ hk hcs h => Program.ofText_replaceLine hk hcs h⟩

/-- The remark moves the line of the error, and the blank in the word is not seen. -/
theorem spacing_does_not_matter_stopped :
    let text := "color[0][1,2,3,4]\nswap[0][7]"
    insertLine 1 " # x".toList text = "color[0][1,2,3,4]\n # x\nswap[0][7]" ∧
      Run.ofText text none .legacy = .error (.refused (.atLine 1 (.blockNotFound "7"))) ∧
      Run.ofText "color[0][1,2,3,4]\n # x\nswap[0][7]" none .legacy
        = .error (.refused (.atLine 2 (.blockNotFound "7"))) ∧
      replaceLine 1 "sw\u3000ap[0][7]".toList text = "color[0][1,2,3,4]\nsw\u3000ap[0][7]" ∧
      Program.ofText "color[0][1,2,3,4]\nsw\u3000ap[0][7]" = Program.ofText text := by
  intro text
  have hinsert : insertLine 1 " # x".toList text = "color[0][1,2,3,4]\n # x\nswap[0][7]" := by
    decide +kernel
  have hreplace : replaceLine 1 "sw\u3000ap[0][7]".toList text
      = "color[0][1,2,3,4]\nsw\u3000ap[0][7]" := by decide +kernel
  have hstop : Run.ofText text none .legacy
      = .error (.refused (.atLine 1 (.blockNotFound "7"))) := by
    refine eq_error_of_map (f := fun _ => ()) ?_
    decide +kernel
  have hlines : lines text = ["color[0][1,2,3,4]".toList, "swap[0][7]".toList] := by
    decide +kernel
  have hk : 1 ≤ (lines text).length := by
    rw [hlines]
    decide
  have hline : (lines text)[1]? = some "swap[0][7]".toList := by
    rw [hlines]
    rfl
  have hidle : ¬ Idle "swap[0][7]".toList := by
    rw [idle_iff]
    decide
  have hrun := (spacing_does_not_matter text).1 1 " # x".toList hk (by decide) (.inr (by decide))
    none .legacy
  have hread := (spacing_does_not_matter text).2 1 _ "sw\u3000ap[0][7]".toList hline hidle
    (.insert (by decide) (by decide) "sw".toList "ap[0][7]".toList)
  rw [hinsert, hstop] at hrun
  rw [hreplace] at hread
  exact ⟨hinsert, hstop, hrun, hreplace, hread⟩

end Easel
