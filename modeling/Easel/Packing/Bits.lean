/-!
# Bits in a row

Packed data is read bit by bit, from the lowest of each byte on. Reading is work
that moves a position forward and fails at the end of the bytes.
-/

namespace Easel.Packing

/-- Bits that are read one after another. -/
structure Bits where
  bytes : ByteArray
  /-- The number of bits that have been read. -/
  position : Nat := 0

/-- Work that reads bits and may fail. -/
abbrev BitReading := StateT Bits Option

namespace Bits

/-- The number of all bits. -/
def size (b : Bits) : Nat := b.bytes.size * 8

/-- Reads a bit. -/
def bit : BitReading Nat := fun b =>
  if h : b.position / 8 < b.bytes.size then
    let byte := b.bytes[b.position / 8]
    some ((byte.toNat >>> (b.position % 8)) % 2, { b with position := b.position + 1 })
  else none

/-- Reads a number of `n` bits, the lowest first. -/
def number : Nat → BitReading Nat
  | 0 => return 0
  | n + 1 => do
    let low ← bit
    let high ← number n
    return low + 2 * high

/-- Goes on to the next whole byte. -/
def align (b : Bits) : Bits :=
  { b with position := (b.position + 7) / 8 * 8 }

end Bits

end Easel.Packing
