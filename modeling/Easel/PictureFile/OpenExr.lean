import Easel.Packing.Inflate
import Easel.PictureFile.Reading
import Easel.PictureFile.Unit

/-!
# High dynamic range pictures in channels

A picture of this kind has a header of named attributes, among them two windows: one
that is shown and one for which there are data. What is shown without data is black,
or transparent if there is alpha. Every channel has samples of a kind of its own. The
lines of the data window are written in blocks, in which a line holds one channel
after the other. Pictures are read that are in one part, cut into lines, and packed
not at all, in runs or deflated.
-/

namespace Easel.PictureFile.OpenExr

/-- What the samples of a channel are. -/
inductive Sample where
  /-- A whole number of 32 bits. -/
  | whole
  /-- A float of half precision. -/
  | half
  /-- A float of single precision. -/
  | single
deriving DecidableEq

/-- The number of bytes of a sample. -/
def Sample.size : Sample → Nat
  | .half => 2
  | _ => 4

/-- The value of a float of half precision from its sixteen bits. -/
def ofHalf (n : Nat) : Float32 :=
  let exponent := n / 1024 % 32
  let fraction := n % 1024
  let size :=
    match exponent with
    | 0 => Float32.ofNat fraction / 16777216
    | 31 => Float32.ofBits (UInt32.ofNat (255 * 8388608 + fraction * 8192))
    | _ => Float32.ofBits (UInt32.ofNat ((exponent + 112) * 8388608 + fraction * 8192))
  if n.testBit 15 then -size else size

/-- The strength of a sample. -/
def Sample.strength (s : Sample) (n : Nat) : Float32 :=
  match s with
  | .whole => Float32.ofNat n
  | .half => ofHalf n
  | .single => Float32.ofBits (UInt32.ofNat n)

/-- A channel. -/
structure Channel where
  name : String
  sample : Sample

/-- How blocks are packed. -/
inductive Packing where
  | none
  | runs
  /-- Deflated in blocks of so many lines. -/
  | deflated (lines : Nat)
deriving DecidableEq

/-- The number of lines of a block. -/
def Packing.lines : Packing → Nat
  | .deflated lines => lines
  | _ => 1

/-- A window of the plane. -/
structure Window where
  left : Int
  top : Int
  width : Nat
  height : Nat

/-- What a file says of its picture. -/
structure Header where
  packing : Packing
  channels : List Channel
  /-- The window for which there are data. -/
  data : Window
  /-- The window that is shown. -/
  shown : Window

/-! ## Header -/

/-- Takes a text that ends before a byte of zero and has at most `fuel` bytes. -/
def text : Nat → Reading (List UInt8)
  | 0 => do
    if (← byte) = 0 then return [] else failure
  | fuel + 1 => do
    let b ← byte
    if b = 0 then return [] else return b :: (← text fuel)

/-- A number of 32 bits as one that can be negative. -/
def signed (n : Nat) : Int :=
  if n < 2147483648 then n else n - 4294967296

/-- Takes a window, given by two opposite corners that belong to it. -/
def window : Reading Window := do
  let x := signed (← lowFirst 4)
  let y := signed (← lowFirst 4)
  let x₂ := signed (← lowFirst 4)
  let y₂ := signed (← lowFirst 4)
  let left := min x x₂
  let top := min y y₂
  let w : Window :=
    { left, top, width := (x - x₂).natAbs + 1, height := (y - y₂).natAbs + 1 }
  -- coordinates use half of their range at most
  if -1073741823 ≤ left ∧ -1073741823 ≤ top ∧ left + w.width ≤ 1073741823
      ∧ top + w.height ≤ 1073741823 then
    return w
  else failure

/-- Takes channels up to the end of their list, of which `fuel` are left. Every pixel
has to have a sample of each. -/
def channelsFrom : Nat → Reading (List Channel)
  | 0 => failure
  | fuel + 1 => do
    let name ← text 256
    if name = [] then return []
    let sample ←
      match ← lowFirst 4 with
      | 0 => pure Sample.whole
      | 1 => pure Sample.half
      | 2 => pure Sample.single
      | _ => failure
    let linear ← lowFirst 1
    let _ ← bytes 3
    let across ← lowFirst 4
    let down ← lowFirst 4
    if 1 < linear ∨ across ≠ 1 ∨ down ≠ 1 then failure
    return { name := textOf name, sample } :: (← channelsFrom fuel)

/-- Takes the way in which blocks are packed. -/
def packingMethod : Reading Packing := do
  match ← lowFirst 1 with
  | 0 => return .none
  | 1 => return .runs
  | 2 => return .deflated 1
  | 3 => return .deflated 16
  | _ => failure

/-- The attributes that matter. -/
structure Attributes where
  packing : Option Packing := none
  channels : Option (List Channel) := none
  data : Option Window := none
  shown : Option Window := none

/-- The attributes with one more. One that cannot be read is passed over. -/
def Attributes.add (a : Attributes) (name kind : String) (value : List UInt8) : Attributes :=
  let read {α : Type} (work : Reading α) (old : Option α) : Option α :=
    ((work value).map Prod.fst) <|> old
  match name, kind with
  | "compression", "compression" => { a with packing := read packingMethod a.packing }
  | "channels", "chlist" => { a with channels := read (channelsFrom value.length) a.channels }
  | "dataWindow", "box2i" => { a with data := read window a.data }
  | "displayWindow", "box2i" => { a with shown := read window a.shown }
  | _, _ => a

/-- Takes attributes up to their end, of which `fuel` are left. -/
def attributesFrom (longest : Nat) : Nat → Attributes → Reading Attributes
  | 0, _ => failure
  | fuel + 1, a => do
    let name ← text longest
    if name = [] then return a
    let kind ← text longest
    let value ← bytes (← lowFirst 4)
    attributesFrom longest fuel (a.add (textOf name) (textOf kind) value)

/-- Channels stand in the order of their names. -/
def Ordered (channels : List Channel) : Prop :=
  ∀ cd ∈ channels.zip channels.tail, ¬ cd.2.name < cd.1.name

instance (channels : List Channel) : Decidable (Ordered channels) :=
  inferInstanceAs (Decidable (∀ cd ∈ channels.zip channels.tail, ¬ cd.2.name < cd.1.name))

/-- Takes the header. -/
def header : Reading Header := do
  let _ ← bytes 4
  let flags ← lowFirst 4
  -- a file of the second version with nothing but perhaps long names
  if flags % 16 ≠ 2 ∨ flags.testBit 9 ∨ flags.testBit 11 ∨ 4096 ≤ flags then failure
  let longest := if flags.testBit 10 then 256 else 32
  let a ← attributesFrom longest (← get).length {}
  let channels ← a.channels
  if ¬ Ordered channels then failure
  return { packing := ← a.packing, channels, data := ← a.data, shown := ← a.shown }

/-! ## Blocks -/

/-- Unpacks runs and stretches. -/
def unpackRuns : Nat → List UInt8 → List UInt8
  | 0, _ => []
  | fuel + 1, packed =>
    match packed with
    | [] => []
    | n :: packed =>
      if n < 128 then
        match packed with
        | [] => []
        | b :: packed => List.replicate (n.toNat + 1) b ++ unpackRuns fuel packed
      else
        let n := 256 - n.toNat
        packed.take n ++ unpackRuns fuel (packed.drop n)

/-- Undoes what makes bytes easier to pack: each is given by its difference from the
one before, and those at even places come first. -/
def restore (packed : List UInt8) : List UInt8 :=
  let sums := match packed with
    | [] => #[]
    | first :: rest => rest.foldl (fun done b => done.push (done.back?.getD 0 + b - 128)) #[first]
  let half := (sums.size + 1) / 2
  (List.range sums.size).map fun i => sums.getD (if i % 2 = 0 then i / 2 else half + i / 2) 0

/-- Unpacks a block of `wanted` bytes. Bytes that cannot be packed are written as they
are. -/
def unpack? (packing : Packing) (wanted : Nat) (block : List UInt8) : Option (List UInt8) := do
  if block.length = wanted then return block
  let found ←
    match packing with
    | .none => none
    | .runs => some (unpackRuns block.length block)
    | .deflated _ => (Easel.Packing.inflate ⟨(block.drop 2).toArray⟩).map ByteArray.toList
  if found.length = wanted then return restore found else none

/-- The strengths of a line of a channel. -/
def lineOf (s : Sample) (width : Nat) (data : List UInt8) : Array Float32 :=
  ((List.range width).foldl (fun (done, data) _ =>
    let n := (data.take s.size).foldr (fun b n => n * 256 + b.toNat) 0
    (done.push (s.strength n), data.drop s.size)) (#[], data)).1

/-- A line of the data window: the strengths of each channel. -/
abbrev Line := List (String × Array Float32)

/-- The number of bytes of a line. -/
def Header.lineSize (h : Header) : Nat :=
  h.channels.foldl (fun n c => n + h.data.width * c.sample.size) 0

/-- The line with the given bytes. -/
def Header.line (h : Header) (data : List UInt8) : Line :=
  (h.channels.foldl (fun (done, data) c =>
    ((c.name, lineOf c.sample h.data.width data) :: done, data.drop (h.data.width * c.sample.size)))
    ([], data)).1.reverse

/-- The lines of the data window with those of the block that is first in the file. -/
def Header.addBlock? (h : Header) (lines : Array Line) (file : List UInt8) :
    Option (Array Line) := do
  let ((place, block), _) ← (show Reading (Int × List UInt8) from do
    let place := signed (← lowFirst 4)
    return (place, ← bytes (← lowFirst 4))) file
  let size := h.packing.lines
  let first := place - h.data.top
  if first < 0 then none
  let first := first.toNat / size * size
  if h.data.height ≤ first then none
  let n := min size (h.data.height - first)
  let found ← unpack? h.packing (n * h.lineSize) block
  return (List.range n).foldl (fun lines i =>
    lines.setIfInBounds (first + i) (h.line (found.drop (i * h.lineSize)))) lines

/-! ## Pixels -/

/-- The colour of a pixel of the window that is shown. -/
def Header.colourAt (h : Header) (lines : Array Line) (column row : Nat) : Rgba :=
  let alpha := (h.channels.map (·.name)).contains "A"
  let x := h.shown.left + column - h.data.left
  let y := h.shown.top + row - h.data.top
  if 0 ≤ x ∧ x < h.data.width ∧ 0 ≤ y ∧ y < h.data.height then
    let line := lines.getD y.toNat []
    let channel (name : String) : UInt8 :=
      match line.lookup name with
      | some strengths => ofUnit (strengths.getD x.toNat 0)
      | none => 0
    ⟨channel "R", channel "G", channel "B", if alpha then channel "A" else 255⟩
  else ⟨0, 0, 0, if alpha then 0 else 255⟩

/-- Takes a picture. -/
def read : Reading Picture := do
  let file ← get
  let h ← header
  let names := h.channels.map (·.name)
  if ¬ ["R", "G", "B"].all names.contains then failure
  checkSize h.shown.width h.shown.height (if names.contains "A" then 16 else 12)
  -- the places of the blocks come first
  let size := h.packing.lines
  let places ← repeated (lowFirst 8) ((h.data.height + size - 1) / size) #[]
  let lines ← places.foldlM (fun lines place => (h.addBlock? lines (file.drop place) : Option _))
    (Array.replicate h.data.height [])
  picture h.shown.width h.shown.height (Array.ofFn fun i : Fin (h.shown.width * h.shown.height) =>
    h.colourAt lines (i % h.shown.width) (i / h.shown.width))

end Easel.PictureFile.OpenExr
