import Easel.Interpreter
import Easel.Raster
import Easel.Similarity

/-!
# Judging a program

A program is carried out and its canvas is drawn and compared with a target. Its
total is the sum of the prices and the distance to the target. `Report` is what
is told of a judgement: the total, or what went wrong and in which line.
-/

namespace Easel

/-- What a judgement found out. -/
structure Verdict where
  /-- The sum of the prices of all instructions. -/
  instructionCost : Nat
  /-- The weighted distance to the target. -/
  similarity : Nat
  total : Nat
  frame : Frame
  canvas : Canvas

/-- Judges the text of a program by a problem's table of prices and a target. -/
def Verdict.ofText (text : String) (layout : Option Layout) (target : Frame) (problem : Nat)
    (threading : Threading) : Except Failure Verdict := do
  let run ← Run.ofText text layout (.ofProblem problem)
  let frame ← run.canvas.draw threading
  -- sizes are compared only now, so a canvas that cannot be drawn is told of first
  let similarity ← orRefuse (target.similarity frame)
  let total ← addAmounts run.cost similarity
  return { instructionCost := run.cost, similarity, total, frame, canvas := run.canvas }

/-- What is told of a judgement. -/
inductive Report where
  /-- The program was carried out. -/
  | success (cost : Nat)
  /-- The program was refused; the line is absent if the cause has none. -/
  | error (text : String) (line : Option Nat)
deriving DecidableEq, Repr

/-- What is told of a refusal. -/
def Report.ofError (e : Error) : Report :=
  .error e.message e.line?

/-- What is told of a judgement that was not stopped. -/
def Report.ofResult : Except Error Verdict → Report
  | .ok v => .success v.total
  | .error e => .ofError e

end Easel
