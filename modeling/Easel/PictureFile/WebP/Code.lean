import Easel.Packing.PrefixCode

/-!
# Codes of a WebP picture

The numbers of a picture are written in prefix codes, which stand in front of them.
A code with one symbol takes no bits at all. Codes of one or two symbols name them;
of others the lengths of the words are written, in a code of its own.
-/

namespace Easel.PictureFile.WebP

open Easel.Packing

/-- A prefix code. -/
inductive Code where
  /-- One symbol, whose word is empty. -/
  | single (symbol : Nat)
  /-- Two symbols or more. -/
  | words (code : PrefixCode)
deriving Inhabited

namespace Code

/-- Reads a symbol. -/
def symbol : Code → BitReading Nat
  | single s => return s
  | words code => code.symbol

/-- The code whose word for each symbol has the given length, at most fifteen. Of
two symbols or more every sequence of bits has to begin with a word. -/
def ofLengths? (lengths : Array Nat) : Option Code :=
  match lengths.zipIdx.toList.filter fun (l, _) => l ≠ 0 with
  | [] => none
  | [(_, s)] => some (single s)
  | used =>
    if used.foldl (fun n (l, _) => n + Nat.pow 2 (15 - l)) 0 = 32768 then
      some (words (.ofLengths lengths))
    else none

/-- The order in which the lengths of the code of lengths are written. -/
def lengthOrder : List Nat :=
  [17, 18, 0, 1, 2, 3, 4, 5, 16, 6, 7, 8, 9, 10, 11, 12, 13, 14, 15]

/-- Reads the lengths of the code of lengths, in the given order of symbols. -/
def orderedFrom : List Nat → Array Nat → BitReading (Array Nat)
  | [], lengths => return lengths
  | s :: order, lengths => do
    let n ← Bits.number 3
    orderedFrom order (lengths.setIfInBounds s n)

/-- Reads lengths until there are `wanted` of them or until `left` numbers have been
read. `last` is the last length that was not zero. At most `fuel` numbers are read. -/
def lengthsFrom (code : Code) (wanted : Nat) :
    (fuel left last : Nat) → Array Nat → BitReading (Array Nat)
  | 0, _, _, lengths => return lengths
  | fuel + 1, left, last, lengths => do
    if wanted ≤ lengths.size ∨ left = 0 then return lengths
    let again (n l : Nat) : BitReading (Array Nat) :=
      if wanted < lengths.size + n then failure
      else lengthsFrom code wanted fuel (left - 1) last (lengths ++ Array.replicate n l)
    match ← code.symbol with
    | 16 => again ((← Bits.number 2) + 3) last
    | 17 => again ((← Bits.number 3) + 3) 0
    | 18 => again ((← Bits.number 7) + 11) 0
    | l => lengthsFrom code wanted fuel (left - 1) (if l = 0 then last else l) (lengths.push l)

/-- Reads a code that is given by lengths of words. -/
def ofWritten (size : Nat) : BitReading Code := do
  let n ← Bits.number 4
  let ordered ← orderedFrom (lengthOrder.take (n + 4)) (Array.replicate 19 0)
  let some code := ofLengths? ordered | failure
  let left ←
    if (← Bits.bit) = 1 then do
      let n ← Bits.number 3
      let more ← Bits.number (2 + 2 * n)
      if size < more + 2 then failure
      pure (more + 2)
    else pure size
  let lengths ← lengthsFrom code size size left 8 #[]
  let some code := ofLengths? (lengths ++ Array.replicate (size - lengths.size) 0) | failure
  return code

/-- Reads a code of one or two symbols. -/
def ofNamed (size : Nat) : BitReading Code := do
  let two ← Bits.bit
  let long ← Bits.bit
  let first ← Bits.number (1 + 7 * long)
  if size ≤ first then failure
  if two = 0 then return single first
  let second ← Bits.number 8
  if size ≤ second then failure
  return words { counts := #[0, 2], symbols := #[first, second] }

/-- Reads a code whose symbols are less than `size`. -/
def ofBits (size : Nat) : BitReading Code := do
  if (← Bits.bit) = 1 then ofNamed size else ofWritten size

end Code

end Easel.PictureFile.WebP
