import Easel.Cost
import Easel.Layout
import Easel.Program.Basic
import Easel.Routing

/-!
# Carrying out instructions

An `Interpreter` owns a canvas and keeps the sum of the prices paid so far and
the largest number that names a block. `Edit` is work on that state which can
fail, and what was done before the failure stays done. So every instruction
looks up its blocks, checks them and builds all new blocks before it touches the
canvas.

Pieces of a cut are named for the block they come from, with a point and the
number of the piece; a merged block is named by the next number.
-/

namespace Easel

namespace Rect

/-- One rectangle lies on top of the other and has the same left and right
edges. -/
def Stacked (r s : Rect) : Prop :=
  (r.bottomLeft.y = s.topRight.y ∨ r.topRight.y = s.bottomLeft.y) ∧
    r.bottomLeft.x = s.bottomLeft.x ∧ r.topRight.x = s.topRight.x

/-- One rectangle lies beside the other and has the same lower and upper
edges. -/
def SideBySide (r s : Rect) : Prop :=
  (r.bottomLeft.x = s.topRight.x ∨ r.topRight.x = s.bottomLeft.x) ∧
    r.bottomLeft.y = s.bottomLeft.y ∧ r.topRight.y = s.topRight.y

instance (r s : Rect) : Decidable (r.Stacked s) :=
  inferInstanceAs (Decidable (_ ∧ _))

instance (r s : Rect) : Decidable (r.SideBySide s) :=
  inferInstanceAs (Decidable (_ ∧ _))

end Rect

/-- A canvas that is worked on. -/
structure Interpreter where
  canvas : Canvas
  table : CostTable
  /-- The sum of all prices paid. -/
  totalCost : Nat := 0
  /-- The number that the last merged block is named by. -/
  mergeCounter : Nat

/-- Work on a canvas. Where it fails, what was done before stays done. -/
abbrev Edit := EStateM Failure Interpreter

namespace Edit

/-- Work that leaves the canvas alone. -/
def lift {α : Type} (x : Except Failure α) : Edit α := fun s =>
  match x with
  | .ok a => .ok a s
  | .error f => .error f s

/-- Work that leaves the canvas alone and may be refused. -/
def check {α : Type} (x : Except Error α) : Edit α :=
  lift (orRefuse x)

/-- Goes on only where `p` holds; otherwise `e` is the cause of refusal. -/
def require (p : Prop) [Decidable p] (e : Error) : Edit Unit :=
  if p then return () else throw (.refused e)

@[simp] theorem lift_ok {α : Type} (a : α) (s : Interpreter) :
    lift (.ok a) s = .ok a s := rfl

@[simp] theorem lift_error {α : Type} (f : Failure) (s : Interpreter) :
    lift (.error f : Except Failure α) s = .error f s := rfl

@[simp] theorem check_ok {α : Type} (a : α) (s : Interpreter) :
    check (.ok a) s = .ok a s := rfl

@[simp] theorem check_error {α : Type} (e : Error) (s : Interpreter) :
    check (.error e : Except Error α) s = .error (.refused e) s := rfl

theorem require_eq (p : Prop) [Decidable p] (e : Error) (s : Interpreter) :
    require p e s = if p then .ok () s else .error (.refused e) s := by
  unfold require
  split <;> rfl

/-- The block with a name, which has to exist. -/
def block (id : String) : Edit Block := do
  check ((← get).canvas.block id)

/-- The price of an instruction on blocks of the given area. -/
def price (kind : Instruction.Kind) (operand : Nat) : Edit Nat := do
  let s ← get
  return s.table.price kind operand s.canvas.area

/-- Puts a block on the canvas. -/
def insert (id : String) (block : Block) : Edit Unit := do
  let canvas ← check ((← get).canvas.insert id block)
  modify fun s => { s with canvas }

/-- Puts blocks on the canvas one after another. -/
def insertAll : List (String × Block) → Edit Unit
  | [] => return ()
  | (id, block) :: rest => do
    insert id block
    insertAll rest

/-- Takes a block from the canvas. -/
def erase (id : String) : Edit Unit :=
  modify fun s => { s with canvas := s.canvas.erase id }

/-- The name of a piece of the block `id`. -/
def pieceId (id : String) (number : Nat) : String :=
  s!"{id}.{number}"

/-- Puts pieces in the place of the block `id`. -/
def replace (id : String) (pieces : List Block) : Edit Unit := do
  erase id
  insertAll (pieces.zipIdx.map fun (piece, number) => (pieceId id number, piece))

/-- Gives a block one colour. A block of several leaves becomes one leaf. -/
def colour (id : String) (colour : Rgba) : Edit Nat := do
  let block ← block id
  let cost ← price .colour block.area
  insert id (.simple { rect := block.rect, fill := .solid colour })
  return cost

/-- Cuts a block into four at a point of its interior. -/
def pointCut (id : String) (point : Point) : Edit Nat := do
  let block ← block id
  require (point.StrictlyInside block.rect) (.pointOutside point id block.rect)
  let cost ← price .pointCut block.area
  let pieces ← check (block.cutPoint point)
  replace id pieces.toList
  return cost

/-- The kind of a cut along a line. -/
def cutKind : Axis → Instruction.Kind
  | .x => .verticalCut
  | .y => .horizontalCut

/-- Cuts a block in two along a line. A line outside the block is refused before
a line along its edge. -/
def lineCut (id : String) (axis : Axis) (position : Coordinate) : Edit Nat := do
  let block ← block id
  require (block.rect.low axis ≤ position.val ∧ position.val ≤ block.rect.high axis)
    (.lineOutside position.val id block.rect)
  let cost ← price (cutKind axis) block.area
  -- a line along an edge fails here, for want of a second piece
  let pieces ← check (block.cutLine axis position)
  replace id pieces.toList
  return cost

/-- Exchanges the contents of two blocks of the same size. -/
def swap (id₁ id₂ : String) : Edit Nat := do
  let block₁ ← block id₁
  let block₂ ← block id₂
  require (block₁.size = block₂.size) (.sizesDiffer id₁ block₁.size id₂ block₂.size)
  let cost ← price .swap block₁.area
  -- both contents are moved before either of them is put down
  let new₁ ← check (block₂.relocated block₁.rect)
  let new₂ ← check (block₁.relocated block₂.rect)
  insert id₁ new₁
  insert id₂ new₂
  return cost

/-- Joins two blocks that share a whole edge. The price is that of the larger
one. -/
def merge (id₁ id₂ : String) : Edit Nat := do
  let block₁ ← block id₁
  let block₂ ← block id₂
  require (block₁.rect.Stacked block₂.rect ∨ block₁.rect.SideBySide block₂.rect)
    (.notAligned id₁ block₁.rect id₂ block₂.rect)
  let cost ← price .merge (max block₁.area block₂.area)
  let merged := .complex (block₁.rect.hull block₂.rect) (block₁.leaves ++ block₂.leaves)
  let counter := (← get).mergeCounter + 1
  require (counter < 18446744073709551616) .counterExhausted
  erase id₁
  erase id₂
  insert (toString counter) merged
  modify fun s => { s with mergeCounter := counter }
  return cost

/-- Adds a price to the sum of all prices. -/
def charge (cost : Nat) : Edit Nat := do
  let totalCost ← lift (addAmounts (← get).totalCost cost)
  modify fun s => { s with totalCost }
  return cost

/-- Carries out an instruction and gives its price. -/
def apply : Instruction → Edit Nat
  | .blank | .comment _ => return 0
  | .colour id c => do charge (← colour id c)
  | .pointCut id point => do charge (← pointCut id point)
  | .verticalCut id x => do charge (← lineCut id .x x)
  | .horizontalCut id y => do charge (← lineCut id .y y)
  | .swap id₁ id₂ => do charge (← swap id₁ id₂)
  | .merge id₁ id₂ => do charge (← merge id₁ id₂)

/-- Puts the line of an instruction around the cause of its refusal. -/
def atLine {α : Type} (line : Nat) (x : Edit α) : Edit α := fun s =>
  match x s with
  | .ok a s => .ok a s
  | .error f s => .error (f.atLine line) s

/-- Carries out lines of a program and adds their prices to `sum`. -/
def runLines (sum : Nat) : List ProgramLine → Edit Nat
  | [] => return sum
  | l :: ls => do
    let cost ← atLine l.line (apply l.instruction)
    runLines (← lift (addAmounts sum cost)) ls

/-- Carries out a program and gives the sum of its prices. -/
def run (program : Program) : Edit Nat :=
  runLines 0 program.effective

end Edit

/-- Work on a canvas begins; merged blocks are named from its largest number
on. -/
def Interpreter.ofCanvas (canvas : Canvas) (table : CostTable) : Interpreter where
  canvas
  table
  mergeCounter := canvas.maxNumericId.getD 0

/-- What a program leaves behind. -/
structure Run where
  canvas : Canvas
  /-- The sum of the prices of all instructions. -/
  cost : Nat

/-- The canvas a program begins with. -/
def Program.canvas (program : Program) : Option Layout → Except Error Canvas
  | some layout => Canvas.ofLayout layout
  | none => Canvas.blank program.sheet.size program.sheet.background

/-- Reads a program and carries it out, on the canvas of a layout if there is
one. -/
def Run.ofText (text : String) (layout : Option Layout) (table : CostTable) :
    Except Failure Run := do
  let program ← orRefuse (Program.ofText text)
  let canvas ← orRefuse (program.canvas layout)
  match Edit.run program (.ofCanvas canvas table) with
  | .ok cost s => return { canvas := s.canvas, cost }
  | .error f _ => throw f

end Easel
