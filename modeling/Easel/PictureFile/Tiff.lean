import Easel.Packing.Inflate
import Easel.Packing.Lzw
import Easel.PictureFile.Tiff.Directory
import Easel.PictureFile.Unit

/-!
# Tagged image file format

A picture is cut into strips, each as wide as the picture, or into tiles. Either is
packed for itself. Samples are whole numbers of one, eight or sixteen bits or
floats of single precision, and stand for grey, for red, green and blue with alpha
or without, or for the four inks of a print.
-/

namespace Easel.PictureFile.Tiff

/-- What the samples of a pixel are. -/
inductive Ink where
  /-- Grey, where zero is white. -/
  | white
  /-- Grey, where zero is black. -/
  | black
  /-- Red, green and blue. -/
  | light
  /-- Red, green, blue and alpha. -/
  | lightWithAlpha
  /-- Cyan, magenta, yellow and black. -/
  | print
deriving DecidableEq

/-- What samples are by their number. -/
def Ink.ofNumber? (n samples : Nat) : Option Ink :=
  match n, samples with
  | 0, 1 => some .white
  | 1, 1 => some .black
  | 2, 3 => some .light
  | 2, 4 => some .lightWithAlpha
  | 5, 4 => some .print
  | _, _ => none

/-- The numbers of bits that a sample may have. -/
def Ink.depths : Ink → List Nat
  | .white | .black => [1, 8, 16]
  | .light | .lightWithAlpha => [8, 16, 32]
  | .print => [8, 16]

/-- The number of channels of the picture that is read. -/
def Ink.channels : Ink → Nat
  | .white | .black => 1
  | .light | .print => 3
  | .lightWithAlpha => 4

/-- How the bytes of a strip or a tile are packed. -/
inductive Packing where
  | none
  /-- Codes of words in a growing dictionary. -/
  | words
  /-- Deflated. -/
  | deflated
  /-- Runs of one byte and stretches that are written out. -/
  | runs

/-- How bytes are packed, by the number of the way. -/
def Packing.ofNumber? : Nat → Option Packing
  | 1 => some .none
  | 5 => some .words
  | 8 | 32946 => some .deflated
  | 32773 => some .runs
  | _ => .none

/-- What a file says of its picture. -/
structure Header where
  width : Nat
  height : Nat
  /-- The bits of a sample. -/
  depth : Nat
  /-- The samples of a pixel. -/
  samples : Nat
  ink : Ink
  packing : Packing
  /-- Samples are written as differences from those of the pixel to the left. -/
  differences : Bool
  /-- The width of a strip or a tile. -/
  pieceWidth : Nat
  /-- The height of a strip or a tile, from which the last strip may be cut off. -/
  pieceHeight : Nat
  /-- The places of the pieces and the numbers of their bytes. -/
  pieces : List (Nat × Nat)
  highFirst : Bool

/-- The quotient rounded up. -/
def parts (n size : Nat) : Nat := (n + size - 1) / size

/-- The width, the height, the places and the lengths of the pieces. There have to be
entries for strips or for tiles, but not for both. -/
def pieces? (d : Directory) (width height : Nat) : Option (Nat × Nat × List (Nat × Nat)) := do
  let has (tag : Nat) : Bool := (d.entry? tag).isSome
  let (w, h, starts, lengths) ←
    match has 273, has 279, has 324, has 325 with
    | true, true, false, false =>
      let h ← d.value? 4294967296 278 (some height)
      pure (width, h, ← d.values? 273 [], ← d.values? 279 [])
    | false, false, true, true =>
      let w ← d.value? 4294967296 322 none
      let h ← d.value? 4294967296 323 none
      pure (w, h, ← d.values? 324 [], ← d.values? 325 [])
    | _, _, _, _ => none
  if 0 < w ∧ 0 < h ∧ starts.length = lengths.length
      ∧ starts.length = parts width w * parts height h then
    return (w, h, starts.zip lengths)
  else none

/-- All of the values are the same. -/
def AllSame (ns : List Nat) : Prop := ∀ n ∈ ns, ns.head? = some n

instance (ns : List Nat) : Decidable (AllSame ns) :=
  inferInstanceAs (Decidable (∀ n ∈ ns, ns.head? = some n))

/-- Takes the headers. -/
def header : Reading Header := do
  let d ← directory
  let width ← d.value? 4294967296 256 none
  let height ← d.value? 4294967296 257 none
  if width = 0 ∨ height = 0 then failure
  let samples ← d.value? 65536 277 (some 1)
  let ink ← Ink.ofNumber? (← d.value? 65536 262 none) samples
  let depths ← d.values? 258 [1]
  let depth ← depths.head?
  if ¬ AllSame depths ∨ depths.length ∉ [1, samples] ∨ depth ∉ ink.depths then failure
  -- whole numbers are the first kind of samples and floats the third
  let wanted := if depth = 32 then 3 else 1
  if (← d.values? 339 [wanted]).any (· ≠ wanted) then failure
  let packing ← Packing.ofNumber? (← d.value? 65536 259 (some 1))
  let guess ← d.value? 65536 317 (some 1)
  if guess ∉ [1, 2] ∨ (guess = 2 ∧ depth = 1) then failure
  -- all samples of a pixel stand together
  if (← d.value? 65536 284 (some 1)) ≠ 1 then failure
  let (pieceWidth, pieceHeight, pieces) ← pieces? d width height
  -- a tile beside others has to fill whole bytes
  if pieceWidth < width ∧ pieceWidth * depth * samples % 8 ≠ 0 then failure
  return {
    width, height, depth, samples, ink, packing, differences := guess = 2, pieceWidth, pieceHeight,
    pieces, highFirst := d.highFirst }

/-! ## Pieces -/

/-- Unpacks runs and stretches. -/
def unpackRuns : Nat → List UInt8 → List UInt8
  | 0, _ => []
  | fuel + 1, data =>
    match data with
    | [] => []
    | n :: data =>
      if n < 128 then data.take (n.toNat + 1) ++ unpackRuns fuel (data.drop (n.toNat + 1))
      else if n = 128 then unpackRuns fuel data
      else
        match data with
        | [] => []
        | b :: data => List.replicate (257 - n.toNat) b ++ unpackRuns fuel data

/-- Unpacks deflated data behind two bytes that announce it. -/
def unpackDeflated (data : List UInt8) : Option (List UInt8) := do
  match data with
  | a :: b :: data =>
    if a % 16 = 8 ∧ a < 128 ∧ (a.toNat * 256 + b.toNat) % 31 = 0 ∧ b.toNat.testBit 5 = false then
      return (← Easel.Packing.inflate ⟨data.toArray⟩).toList
    else none
  | _ => none

/-- The first `wanted` bytes of a piece that starts with the given bytes and takes
`length` of them. Bytes that are not packed may go on behind the piece. -/
def unpack? (packing : Packing) (wanted length : Nat) (data : List UInt8) :
    Option (List UInt8) := do
  let found ←
    match packing with
    | .none => some data
    | .words =>
      let style : Easel.Packing.Lzw.Style := { width := 8, highFirst := true, early := true }
      Easel.Packing.Lzw.unpack style wanted (data.take length)
    | .deflated => unpackDeflated data
    | .runs => some (unpackRuns length (data.take length))
  let found := found.take wanted
  if found.length = wanted then some found else none

/-- The samples of a row, from the bytes that it fills. -/
def samplesOf (h : Header) (row : List UInt8) : Array Nat :=
  let written :=
    if h.depth = 1 then
      row.flatMap fun b => (List.range 8).map fun i => (b.toNat.testBit (7 - i)).toNat
    else
      let size := h.depth / 8
      (groups size (row.length / size) row).map (valueOf h.highFirst)
  let found :=
    if h.differences then
      written.foldl (fun done n =>
        let left := if h.samples ≤ done.size then done.getD (done.size - h.samples) 0 else 0
        done.push ((left + n) % Nat.pow 2 h.depth)) #[]
    else written.toArray
  if h.ink = .white then found.map fun n => Nat.pow 2 h.depth - 1 - n else found

/-- The rows of samples of the piece with the given number, as far as they belong to
the picture. -/
def piece? (h : Header) (file : List UInt8) (index : Nat) : Option (Array (Array Nat)) := do
  let (start, length) ← h.pieces[index]?
  let across := parts h.width h.pieceWidth
  let width := min h.pieceWidth (h.width - index % across * h.pieceWidth)
  let height := min h.pieceHeight (h.height - index / across * h.pieceHeight)
  let bytesOf (width : Nat) : Nat := parts (width * h.depth * h.samples) 8
  let whole := bytesOf h.pieceWidth
  -- what the last row holds beside the picture does not matter
  let found ← unpack? h.packing ((height - 1) * whole + bytesOf width) length (file.drop start)
  return ((groups whole height found).map fun row => samplesOf h (row.take (bytesOf width))).toArray

/-! ## Pixels -/

/-- The eight bits of a sample. -/
def channelOf (depth n : Nat) : UInt8 :=
  match depth with
  | 1 => if n = 0 then 0 else 255
  | 8 => UInt8.ofNat n
  | 16 => narrow n
  | _ => ofUnit (Float32.ofBits (UInt32.ofNat n))

/-- What is left of full light by an ink and by black, as a number up to `largest`. -/
def lightLeft (largest ink black : Nat) : Nat :=
  let largest := Float32.ofNat largest
  let rest := 1 - Float32.ofNat black / largest
  ((largest - Float32.ofNat ink) * rest).toUInt16.toNat

/-- The colour of a pixel. -/
def colourOf (h : Header) (samples : List Nat) : Option Rgba :=
  let channel := channelOf h.depth
  match h.ink, samples with
  | .print, [c, m, y, k] =>
    let left (ink : Nat) : UInt8 := channel (lightLeft (Nat.pow 2 h.depth - 1) ink k)
    some ⟨left c, left m, left y, 255⟩
  | _, [v] => some ⟨channel v, channel v, channel v, 255⟩
  | _, [r, g, b] => some ⟨channel r, channel g, channel b, 255⟩
  | _, [r, g, b, a] => some ⟨channel r, channel g, channel b, channel a⟩
  | _, _ => none

/-- Takes a picture. -/
def read : Reading Picture := do
  let file ← get
  let h ← header
  checkSize h.width h.height (h.ink.channels * parts h.depth 8)
  let across := parts h.width h.pieceWidth
  let pieces := (← (List.range h.pieces.length).mapM fun i => (piece? h file i : Option _)).toArray
  let pixels ← (List.range (h.width * h.height)).mapM fun i => (do
    let column := i % h.width
    let row := i / h.width
    let piece ← pieces[row / h.pieceHeight * across + column / h.pieceWidth]?
    let samples ← piece[row % h.pieceHeight]?
    let first := column % h.pieceWidth * h.samples
    colourOf h (samples.extract first (first + h.samples)).toList : Option Rgba)
  picture h.width h.height pixels.toArray

end Easel.PictureFile.Tiff
