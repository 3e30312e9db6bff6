import Easel.Colour

/-!
# Instructions

An instruction names the blocks it works on. Blank lines and comments are
instructions that do nothing, so that a program has one instruction for each
line. The text of an instruction is its canonical spelling.
-/

namespace Easel

/-- One line of a program. -/
inductive Instruction where
  /-- A blank line. -/
  | blank
  /-- A remark. -/
  | comment (text : String)
  /-- Gives a block one colour. -/
  | colour (id : String) (colour : Rgba)
  /-- Cuts a block into four at a point of its interior. -/
  | pointCut (id : String) (point : Point)
  /-- Cuts a block along a vertical line. -/
  | verticalCut (id : String) (x : Coordinate)
  /-- Cuts a block along a horizontal line. -/
  | horizontalCut (id : String) (y : Coordinate)
  /-- Exchanges the contents of two blocks of the same size. -/
  | swap (id₁ id₂ : String)
  /-- Joins two blocks that share a whole edge. -/
  | merge (id₁ id₂ : String)
deriving DecidableEq, Repr

namespace Instruction

/-- The kinds of instructions, by which they are priced. -/
inductive Kind where
  | blank
  | comment
  | colour
  | pointCut
  | verticalCut
  | horizontalCut
  | swap
  | merge
deriving DecidableEq, Repr

/-- The kind of an instruction. -/
def kind : Instruction → Kind
  | blank => .blank
  | comment _ => .comment
  | colour .. => .colour
  | pointCut .. => .pointCut
  | verticalCut .. => .verticalCut
  | horizontalCut .. => .horizontalCut
  | swap .. => .swap
  | merge .. => .merge

/-- The instruction does nothing. -/
def Inert : Instruction → Prop
  | blank | comment _ => True
  | _ => False

instance : DecidablePred Inert := fun i => by
  cases i <;> simp only [Inert] <;> infer_instance

/-- The canonical spelling. -/
def text : Instruction → String
  | blank => ""
  | comment text => s!"# {text}"
  | colour id c => s!"color [{id}] [{c.r.toNat}, {c.g.toNat}, {c.b.toNat}, {c.a.toNat}]"
  | pointCut id point => s!"cut [{id}] [{point.x}, {point.y}]"
  | verticalCut id x => s!"cut [{id}] [x] [{x.val}]"
  | horizontalCut id y => s!"cut [{id}] [y] [{y.val}]"
  | swap id₁ id₂ => s!"swap [{id₁}] [{id₂}]"
  | merge id₁ id₂ => s!"merge [{id₁}] [{id₂}]"

instance : ToString Instruction where
  toString := text

end Instruction

end Easel
