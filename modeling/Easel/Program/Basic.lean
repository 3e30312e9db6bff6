import Easel.Program.Line

/-!
# Programs

A program is a text of lines, each of them an instruction; the first line that
is none makes the whole text unreadable. Lines count from zero.
-/

namespace Easel

/-- The canvas that a program begins with, unless it is given another one. -/
structure Sheet where
  /-- Width and height. -/
  size : Point := { x := 400, y := 400 }
  background : Rgba := .white
deriving DecidableEq, Repr

/-- The sheet of a program that is given no canvas. -/
def Sheet.standard : Sheet := {}

/-- An instruction with the line it stands on. -/
structure ProgramLine where
  line : Nat
  instruction : Instruction
deriving DecidableEq, Repr

/-- The instructions of a text, one for each line. -/
structure Program where
  sheet : Sheet := .standard
  lines : List ProgramLine
deriving DecidableEq, Repr

namespace Program

/-- Reads lines, the first of which has the given number. -/
def ofLines (line : Nat) : List String → Except Error (List ProgramLine)
  | [] => .ok []
  | text :: texts => do
    let instruction ← Instruction.ofLine line text
    let lines ← ofLines (line + 1) texts
    return { line, instruction } :: lines

/-- Reads a program. -/
def ofText (text : String) : Except Error Program := do
  -- a return before the line end is a blank of its line
  let lines ← ofLines 0 ((text.toList.splitOn '\n').map String.ofList)
  return { lines }

/-- The lines that act on the canvas. -/
def effective (p : Program) : List ProgramLine :=
  p.lines.filter (¬ ·.instruction.Inert)

/-- The text of a program in canonical spelling. -/
def text (p : Program) : String :=
  "\n".intercalate (p.lines.map (·.instruction.text))

end Program

end Easel
