import Easel.PictureFile.Reading

/-!
# Surfaces in blocks

A surface is cut into blocks of four by four pixels. A block has two colours of
sixteen bits, from which two more are mixed, and names one of the four for each
pixel. In front of that may stand the alpha of the pixels, either as it is or mixed
from two levels in the same way.
-/

namespace Easel.PictureFile.Surface

/-- How a block gives alpha. -/
inductive Alpha where
  /-- Not at all: the block is opaque. -/
  | none
  /-- Four bits for each pixel. -/
  | plain
  /-- Two levels, and three bits for each pixel. -/
  | mixed

/-- The kind of blocks with the given name. -/
def Alpha.ofName? : String → Option Alpha
  | "DXT1" => some .none
  | "DXT3" => some .plain
  | "DXT5" => some .mixed
  | _ => .none

/-- The kind of blocks with the given number, which a second header gives. -/
def Alpha.ofNumber? (n : Nat) : Option Alpha :=
  if 70 ≤ n ∧ n ≤ 72 then some .none
  else if 73 ≤ n ∧ n ≤ 75 then some .plain
  else if 76 ≤ n ∧ n ≤ 78 then some .mixed
  else .none

/-- What stands in front of the blocks. -/
structure Header where
  width : Nat
  height : Nat
  alpha : Alpha

/-- The flags of a header that says what it has to. -/
def FlagsAdmitted (flags : Nat) : Prop :=
  -- size, height, width and kind of pixels are there, and only known flags are set
  flags &&& 4103 = 4103 ∧ flags ||| 9048079 = 9048079

instance : DecidablePred FlagsAdmitted := fun _ =>
  inferInstanceAs (Decidable (_ ∧ _))

/-- Takes the second header, which says what the blocks are. -/
def secondHeader : Reading Alpha := do
  let kind ← lowFirst 4
  let dimension ← lowFirst 4
  let flag ← lowFirst 4
  let count ← lowFirst 4
  let meaning ← lowFirst 4
  if 2 ≤ dimension ∧ dimension ≤ 4 ∧ (flag = 0 ∨ flag = 4) ∧ (dimension = 4 → count = 1)
      ∧ meaning ≤ 4 then
    Alpha.ofNumber? kind
  else failure

/-- Takes the headers. -/
def header : Reading Header := do
  if textOf (← bytes 4) ≠ "DDS " then failure
  if (← lowFirst 4) ≠ 124 then failure
  if ¬ FlagsAdmitted (← lowFirst 4) then failure
  let height ← lowFirst 4
  let width ← lowFirst 4
  let _ ← bytes 56
  if (← lowFirst 4) ≠ 32 then failure
  let kind ← lowFirst 4
  let name := textOf (← bytes 4)
  let _ ← bytes 40
  -- surfaces that are not cut into blocks are not read
  if ¬ kind.testBit 2 then failure
  let alpha ← if name = "DX10" then secondHeader else (Alpha.ofName? name : Option Alpha)
  if width % 4 ≠ 0 ∨ height % 4 ≠ 0 then failure
  return { width, height, alpha }

/-- The channels of a colour of sixteen bits: five of red, six of green and five of
blue. -/
def channels (n : Nat) : List Nat :=
  [n / 2048 * 255 / 31, n / 32 % 64 * 255 / 63, n % 32 * 255 / 31]

/-- The number between `a` and `b` that has `i` of `n` parts of `b`, with `half` to
round it. -/
def mix (half n i a b : Nat) : Nat :=
  ((n - i) * a + i * b + half) / n

/-- The four colours of a block. Blocks without alpha whose first colour is not the
larger number have only one mixed colour, and black. -/
def palette (alpha : Alpha) (first second : Nat) : List (List Nat) :=
  let a := channels first
  let b := channels second
  match alpha, decide (first ≤ second) with
  | .none, true => [a, b, List.zipWith (mix 1 2 1) a b, [0, 0, 0]]
  | _, _ => [a, b, List.zipWith (mix 1 3 1) a b, List.zipWith (mix 1 3 2) a b]

/-- The eight levels of alpha of a block. -/
def levels (first second : Nat) : List Nat :=
  if second < first then
    first :: second :: (List.range' 1 6).map fun i => mix 0 7 i first second
  else
    first :: second :: (List.range' 1 4).map (fun i => mix 0 5 i first second) ++ [0, 255]

/-- Takes the alpha of the sixteen pixels of a block. -/
def alphas : Alpha → Reading (List Nat)
  | .none => return List.replicate 16 255
  | .plain => do
    let n ← lowFirst 8
    return (List.range 16).map fun i => n / Nat.pow 16 i % 16 * 17
  | .mixed => do
    let levels := levels (← lowFirst 1) (← lowFirst 1)
    let n ← lowFirst 6
    return (List.range 16).map fun i => levels.getD (n / Nat.pow 8 i % 8) 0

/-- Takes the sixteen pixels of a block. -/
def block (alpha : Alpha) : Reading (Array Rgba) := do
  let alphas ← alphas alpha
  let palette := palette alpha (← lowFirst 2) (← lowFirst 2)
  let n ← lowFirst 4
  return (alphas.zipIdx.map fun (a, i) =>
    match palette.getD (n / Nat.pow 4 i % 4) [] with
    | [r, g, b] => ⟨UInt8.ofNat r, UInt8.ofNat g, UInt8.ofNat b, UInt8.ofNat a⟩
    | _ => Rgba.transparent).toArray

/-- Takes a surface. What follows its first picture is not looked at. -/
def read : Reading Picture := do
  let h ← header
  checkSize h.width h.height (match h.alpha with | .none => 3 | _ => 4)
  let across := h.width / 4
  let blocks ← repeated (block h.alpha) (across * (h.height / 4)) #[]
  picture h.width h.height (Array.ofFn fun i : Fin (h.width * h.height) =>
    let column := i % h.width
    let row := i / h.width
    let block := blocks.getD (row / 4 * across + column / 4) #[]
    block.getD (row % 4 * 4 + column % 4) Rgba.transparent)

end Easel.PictureFile.Surface
