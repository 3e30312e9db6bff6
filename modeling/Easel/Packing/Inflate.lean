import Easel.Packing.PrefixCode

/-!
# Unpacking deflated data

Deflated data is a run of blocks, each either stored as it is or written in two
prefix codes: one for literals and lengths, one for distances. A length and a
distance stand for bytes that have already been unpacked. The codes of a block
are fixed ones or are written in front of it.

Every step of the loops takes at least one bit, so the number of all bits is fuel
enough.
-/

namespace Easel.Packing

/-- The least length of each length symbol and the number of bits to add. -/
def lengthBase : Array (Nat × Nat) :=
  #[(3, 0), (4, 0), (5, 0), (6, 0), (7, 0), (8, 0), (9, 0), (10, 0), (11, 1), (13, 1), (15, 1),
    (17, 1), (19, 2), (23, 2), (27, 2), (31, 2), (35, 3), (43, 3), (51, 3), (59, 3), (67, 4),
    (83, 4), (99, 4), (115, 4), (131, 5), (163, 5), (195, 5), (227, 5), (258, 0)]

/-- The least distance of each distance symbol and the number of bits to add. -/
def distanceBase : Array (Nat × Nat) :=
  #[(1, 0), (2, 0), (3, 0), (4, 0), (5, 1), (7, 1), (9, 2), (13, 2), (17, 3), (25, 3), (33, 4),
    (49, 4), (65, 5), (97, 5), (129, 6), (193, 6), (257, 7), (385, 7), (513, 8), (769, 8),
    (1025, 9), (1537, 9), (2049, 10), (3073, 10), (4097, 11), (6145, 11), (8193, 12),
    (12289, 12), (16385, 13), (24577, 13)]

/-- Reads the number that a symbol of a table stands for. -/
def extended (table : Array (Nat × Nat)) (symbol : Nat) : BitReading Nat := do
  let some (least, bits) := table[symbol]? | failure
  return least + (← Bits.number bits)

/-- Repeats `n` bytes from `distance` bytes back. -/
def repeatBytes (distance : Nat) : Nat → ByteArray → Option ByteArray
  | 0, out => some out
  | n + 1, out =>
    if h : 0 < distance ∧ distance ≤ out.size then
      repeatBytes distance n (out.push out[out.size - distance])
    else none

/-- Unpacks the symbols of a block up to its end. -/
def unpackSymbols (literals distances : PrefixCode) : Nat → ByteArray → BitReading ByteArray
  | 0, _, _ => none
  | fuel + 1, out, b =>
    match literals.symbol b with
    | none => none
    | some (s, b) =>
      if s < 256 then unpackSymbols literals distances fuel (out.push (UInt8.ofNat s)) b
      else if s = 256 then some (out, b)
      else
        let copied : BitReading ByteArray := do
          let length ← extended lengthBase (s - 257)
          let distance ← extended distanceBase (← distances.symbol)
          repeatBytes distance length out
        match copied b with
        | some (out, b) => unpackSymbols literals distances fuel out b
        | none => none

/-- Unpacks a block that is stored as it is. -/
def unpackStored (out : ByteArray) : BitReading ByteArray := do
  modify Bits.align
  let length ← Bits.number 16
  let check ← Bits.number 16
  let b ← get
  let start := b.position / 8
  if length + check = 65535 ∧ start + length ≤ b.bytes.size then
    set { b with position := (start + length) * 8 }
    return out ++ b.bytes.extract start (start + length)
  else failure

/-- The fixed code of literals and lengths. -/
def fixedLiterals : PrefixCode :=
  .ofLengths (Array.replicate 144 8 ++ Array.replicate 112 9 ++ Array.replicate 24 7
    ++ Array.replicate 8 8)

/-- The fixed code of distances. -/
def fixedDistances : PrefixCode :=
  .ofLengths (Array.replicate 30 5)

/-- The order in which the lengths of the code of lengths are written. -/
def lengthOrder : List Nat :=
  [16, 17, 18, 0, 8, 7, 9, 6, 10, 5, 11, 4, 12, 3, 13, 2, 14, 1, 15]

/-- Reads the lengths of the code of lengths, in the given order of symbols. -/
def readOrder : List Nat → Array Nat → BitReading (Array Nat)
  | [], lengths => return lengths
  | s :: order, lengths => do
    let n ← Bits.number 3
    readOrder order (lengths.setIfInBounds s n)

/-- Reads lengths until there are `wanted` of them. -/
def readLengths (code : PrefixCode) (wanted : Nat) : Nat → Array Nat → BitReading (Array Nat)
  | 0, lengths => if lengths.size = wanted then return lengths else failure
  | fuel + 1, lengths => do
    if lengths.size = wanted then return lengths
    else if wanted < lengths.size then failure
    else
      match ← code.symbol with
      | 16 =>
        let some last := lengths.back? | failure
        readLengths code wanted fuel (lengths ++ Array.replicate ((← Bits.number 2) + 3) last)
      | 17 => readLengths code wanted fuel (lengths ++ Array.replicate ((← Bits.number 3) + 3) 0)
      | 18 => readLengths code wanted fuel (lengths ++ Array.replicate ((← Bits.number 7) + 11) 0)
      | s => readLengths code wanted fuel (lengths.push s)

/-- Reads the codes in front of a block. -/
def readCodes : BitReading (PrefixCode × PrefixCode) := do
  let literals ← Bits.number 5
  let distances ← Bits.number 5
  let orders ← Bits.number 4
  let order ← readOrder (lengthOrder.take (orders + 4)) (Array.replicate 19 0)
  let wanted := literals + 257 + (distances + 1)
  let lengths ← readLengths (.ofLengths order) wanted wanted #[]
  return (.ofLengths (lengths.extract 0 (literals + 257)),
    .ofLengths (lengths.extract (literals + 257) wanted))

/-- Unpacks blocks up to the last one. -/
def unpackBlocks : Nat → ByteArray → BitReading ByteArray
  | 0, _ => failure
  | fuel + 1, out => do
    let last ← Bits.bit
    let kind ← Bits.number 2
    let limit := (← get).size
    let out ←
      match kind with
      | 0 => unpackStored out
      | 1 => unpackSymbols fixedLiterals fixedDistances limit out
      | 2 =>
        let (literals, distances) ← readCodes
        unpackSymbols literals distances limit out
      | _ => failure
    if last = 1 then return out else unpackBlocks fuel out

/-- Unpacks deflated data. -/
def inflate (bytes : ByteArray) : Option ByteArray := do
  let b : Bits := { bytes }
  let (out, _) ← unpackBlocks b.size .empty b
  return out

end Easel.Packing
