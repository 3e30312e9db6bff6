import Easel.Instruction
import Easel.Nearest

/-!
# Prices

Every instruction has a base price and is the dearer, the smaller its block is:
the base price is multiplied by the ratio of the areas of canvas and block and
rounded to a whole number. The computation is in binary floating point, the
ratio first, and a half is rounded up; both decide the last digit.

There are two tables of base prices. Problems up to a certain number keep the
old one, so that old scores stay what they were.
-/

namespace Easel

/-- Which table of base prices is in force. -/
inductive CostTable where
  /-- The first table, with expensive cuts. -/
  | legacy
  /-- The table with cheaper cuts. -/
  | revised
deriving DecidableEq, Repr

namespace CostTable

/-- The number of the first problem with the revised table. -/
def firstRevised : Nat := 36

/-- The table for a problem. -/
def ofProblem (problem : Nat) : CostTable :=
  if problem < firstRevised then legacy else revised

/-- The base price of an instruction. -/
def base : CostTable → Instruction.Kind → Nat
  | _, .blank | _, .comment => 0
  | _, .colour => 5
  | legacy, .verticalCut | legacy, .horizontalCut => 7
  | legacy, .pointCut => 10
  | revised, .verticalCut | revised, .horizontalCut => 2
  | revised, .pointCut => 3
  | _, .swap => 3
  | _, .merge => 1

end CostTable

/-- The price of an instruction on a block of area `operand` of a canvas of area
`canvas`. A block without area is free. -/
def CostTable.price (table : CostTable) (kind : Instruction.Kind) (operand canvas : Nat) : Nat :=
  let base := table.base kind
  if base = 0 ∨ operand = 0 then 0
  else (nearest (Float.ofNat base * (Float.ofNat canvas / Float.ofNat operand))).toNat

end Easel
