import Easel.Packing.Bits

/-!
# Prefix codes

A prefix code gives each of its symbols a word of bits so that no word begins
with another. Here the lengths of the words alone say which words they are: the
words of one length are consecutive numbers in the order of their symbols, and
longer words come after shorter ones.
-/

namespace Easel.Packing

/-- A prefix code: how many words there are of each length, and the symbols in
the order of their words. -/
structure PrefixCode where
  counts : Array Nat
  symbols : Array Nat

namespace PrefixCode

/-- The code whose word for each symbol has the given length; a symbol of length
zero has no word. -/
def ofLengths (lengths : Array Nat) : PrefixCode where
  counts := Array.ofFn fun n : Fin 16 =>
    if n.val = 0 then 0 else lengths.foldl (fun k l => if l = n.val then k + 1 else k) 0
  symbols := (List.range 16).foldl (fun done n =>
    if n = 0 then done
    else lengths.zipIdx.foldl (fun done (l, s) => if l = n then done.push s else done) done) #[]

/-- Reads the bits of a word, of which at most `fuel` are left. `word` is what
has been read, `first` the first word of its length and `index` the place of the
symbol of that. -/
def symbolFrom (c : PrefixCode) : (fuel length word first index : Nat) → BitReading Nat
  | 0, _, _, _, _ => failure
  | fuel + 1, length, word, first, index => do
    let bit ← Bits.bit
    let word := word + bit
    let count := c.counts.getD length 0
    -- words of one length are consecutive numbers
    if word < first + count then
      let some s := c.symbols[index + (word - first)]? | failure
      return s
    else
      c.symbolFrom fuel (length + 1) (word * 2) ((first + count) * 2) (index + count)

/-- Reads a symbol. -/
def symbol (c : PrefixCode) : BitReading Nat :=
  c.symbolFrom 15 1 0 0 0

end PrefixCode

end Easel.Packing
