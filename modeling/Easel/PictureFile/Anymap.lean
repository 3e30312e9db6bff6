import Easel.Nearest
import Easel.PictureFile.Reading
import Easel.Text.Number

/-!
# Portable anymaps

A portable anymap begins with the letter P and a digit. The digit says whether
the picture is in black and white, grey or coloured, and whether its samples are
written out as words or as bytes; with the digit 7 a header of named lines says
the same and may add alpha.

Samples are numbers up to a largest one that the header gives. They are
scaled to eight or sixteen bits in single precision, and a sample that is larger
than the largest one counts as the largest number of those bits.
-/

namespace Easel.PictureFile.Anymap

/-- What a sample is. -/
inductive Sample where
  /-- A bit that is set for black. -/
  | bit
  /-- A byte that is one for white and otherwise zero. -/
  | flag
  /-- A number of 8 bits. -/
  | byte
  /-- A number of 16 bits, the higher ones first. -/
  | double
deriving DecidableEq, Repr

/-- What stands in front of the samples. -/
structure Header where
  width : Nat
  height : Nat
  /-- The number of samples of a pixel. -/
  channels : Nat
  sample : Sample
  /-- The sample of full brightness. -/
  largest : Nat
  /-- Samples are written out as words. -/
  spelled : Bool := false

/-! ## Headers -/

/-- Takes a word and the blank behind it. A number sign and all that follows it in
its line is passed over, with the end of the line, even inside of a word. -/
def wordFrom (remark : Bool) (done : List UInt8) : Reading (List UInt8)
  | [] => if done = [] then none else some (done.reverse, [])
  | b :: rest =>
    if remark then wordFrom (b ≠ 10 && b ≠ 13) done rest
    else if b = 35 then wordFrom true done rest
    else if IsBlank b then
      if done = [] then wordFrom false done rest else some (done.reverse, rest)
    else wordFrom false (b :: done) rest

/-- The number below `limit` whose digits the bytes are. -/
def numberOf (limit : Nat) (word : List UInt8) : Option Nat :=
  (Number.ofDigits? (textOf word).toList).filter (· < limit)

/-- Takes a number of a header. -/
def number : Reading Nat := do
  numberOf 4294967296 (← wordFrom false [])

/-- The samples that reach up to `largest`. -/
def sampleUpTo (largest : Nat) : Option Sample :=
  if largest = 0 then none
  else if largest < 256 then some .byte
  else if largest < 65536 then some .double
  else none

/-- Takes the header of a picture in black and white. -/
def bitHeader (spelled : Bool) : Reading Header := do
  return {
    width := ← number
    height := ← number
    channels := 1
    sample := .bit
    largest := 1
    spelled }

/-- Takes the header of a picture in grey or in colours. -/
def numberHeader (channels : Nat) (spelled : Bool) : Reading Header := do
  let width ← number
  let height ← number
  let largest ← number
  let sample ← sampleUpTo largest
  return { width, height, channels, sample, largest, spelled }

/-- The named lines of a header. -/
structure Fields where
  width : Option Nat := none
  height : Option Nat := none
  depth : Option Nat := none
  largest : Option Nat := none
  kind : Option String := none

/-- The value of a line that has to be a number and is not there yet. A plus sign
may stand in front. -/
def once (old : Option Nat) (value : List UInt8) : Option (Option Nat) :=
  match old with
  | some _ => none
  | none => (Number.ofText? 4294967296 (textOf value)).map some

/-- The fields with those of one more line. -/
def Fields.add? (f : Fields) (name : String) (value : List UInt8) : Option Fields :=
  match name with
  | "WIDTH" => return { f with width := ← once f.width value }
  | "HEIGHT" => return { f with height := ← once f.height value }
  | "DEPTH" => return { f with depth := ← once f.depth value }
  | "MAXVAL" => return { f with largest := ← once f.largest value }
  | "TUPLTYPE" =>
    let value := textOf value
    some { f with kind := some ((f.kind.map fun kind => s!"{kind} {value}").getD value) }
  | _ => none

/-- The bytes without blanks at either end. -/
def trimmed (bytes : List UInt8) : List UInt8 :=
  ((bytes.dropWhile fun b => IsBlank b).reverse.dropWhile fun b => IsBlank b).reverse

/-- Takes named lines up to the one that ends the header, of which `fuel` are left. -/
def fieldsFrom : Nat → Fields → Reading Fields
  | 0, _ => failure
  | fuel + 1, f => do
    let line ← line
    if line.head? = some 35 then fieldsFrom fuel f
    else if line.any (128 ≤ ·) then failure
    else
      match textOf (line.takeWhile fun b => ¬ IsBlank b) with
      | "ENDHDR" => return f
      | name => fieldsFrom fuel (← f.add? name (trimmed (line.dropWhile fun b => ¬ IsBlank b)))

/-- The number of samples of a pixel and what they are, by the kind that a header
names, its depth and the largest sample. -/
def channels? (kind : Option String) (depth largest : Nat) : Option (Nat × Sample) :=
  let numbers (n : Nat) : Option (Nat × Sample) :=
    if depth = n then (sampleUpTo largest).map (n, ·) else none
  let flags (n : Nat) : Option (Nat × Sample) :=
    if depth = n ∧ largest = 1 then some (n, .flag) else none
  match kind with
  -- without a kind the samples are bytes, however large the largest one is
  | none => if 1 ≤ depth ∧ depth ≤ 4 ∧ largest ≠ 0 then some (depth, .byte) else none
  | some "BLACKANDWHITE" => flags 1
  | some "BLACKANDWHITE_ALPHA" => flags 2
  -- a depth of zero says that the samples have sixteen bits, however small they are
  | some "GRAYSCALE" => if depth = 0 then (sampleUpTo largest).map fun _ => (1, .double) else numbers 1
  | some "GRAYSCALE_ALPHA" => numbers 2
  | some "RGB" => numbers 3
  | some "RGB_ALPHA" => numbers 4
  | some _ => none

/-- Takes a header of named lines. -/
def fieldHeader : Reading Header := do
  if (← byte) ≠ 10 then failure
  let f ← fieldsFrom (← get).length {}
  let largest ← f.largest
  let (channels, sample) ← channels? f.kind (← f.depth) largest
  return { width := ← f.width, height := ← f.height, channels, sample, largest }

/-- Takes a header. -/
def header : Reading Header := do
  if (← byte) ≠ 80 then failure
  match Char.ofNat (← byte).toNat with
  | '1' => bitHeader true
  | '2' => numberHeader 1 true
  | '3' => numberHeader 3 true
  | '4' => bitHeader false
  | '5' => numberHeader 1 false
  | '6' => numberHeader 3 false
  | '7' => fieldHeader
  | _ => failure

/-! ## Samples -/

/-- The sample `n` when `largest` is made `top`. -/
def scaled (top largest n : Nat) : Nat :=
  if largest = top then n
  else
    let factor := Float32.ofNat top / Float32.ofNat largest
    min top (nearest (Float32.ofNat n * factor).toFloat).toNat

/-- The eight bits of a sample. -/
def Header.channelOf (h : Header) (n : Nat) : UInt8 :=
  match h.sample with
  | .double => narrow (scaled 65535 h.largest n)
  | _ => UInt8.ofNat (scaled 255 h.largest n)

/-- Takes the next word among the samples, and the blank behind it. -/
def spelledWord : Reading (List UInt8) := fun file =>
  let file := file.dropWhile fun b => IsBlank b
  some (file.takeWhile fun b => ¬ IsBlank b, (file.dropWhile fun b => ¬ IsBlank b).drop 1)

/-- Takes the next bit that is written out. Bits need no blanks between them. -/
def spelledBit : Reading Nat := fun file =>
  match file.dropWhile fun b => IsBlank b with
  | 48 :: rest => some (1, rest)
  | 49 :: rest => some (0, rest)
  | _ => none

/-- Takes a sample. -/
def Header.next (h : Header) : Reading Nat :=
  match h.sample, h.spelled with
  | .bit, _ => spelledBit
  | .byte, true => do numberOf 256 (← spelledWord)
  | .double, true => do numberOf 65536 (← spelledWord)
  | .byte, false => highFirst 1
  | .double, false => highFirst 2
  | .flag, _ => do
    let n ← highFirst 1
    if n ≤ 1 then return n else failure

/-- The colour of samples. -/
def colourOf : List UInt8 → Option Rgba
  | [v] => some ⟨v, v, v, 255⟩
  | [v, a] => some ⟨v, v, v, a⟩
  | [r, g, b] => some ⟨r, g, b, 255⟩
  | [r, g, b, a] => some ⟨r, g, b, a⟩
  | _ => none

/-- Takes a pixel. -/
def Header.pixel (h : Header) : Reading Rgba := do
  let samples ← (List.replicate h.channels h.next).mapM id
  colourOf (samples.map h.channelOf)

/-- Takes bits that are packed in bytes, the highest bit first. Every row begins
with a new byte. -/
def packedBits (width height : Nat) : Reading Picture := do
  let length := (width + 7) / 8
  let data := (← bytes (length * height)).toArray
  picture width height (Array.ofFn fun i : Fin (width * height) =>
    let row := i.val / width
    let column := i.val % width
    let byte := (data.getD (row * length + column / 8) 0).toNat
    let v : UInt8 := if byte.testBit (7 - column % 8) then 0 else 255
    ⟨v, v, v, 255⟩)

/-- The number of bytes of a pixel. -/
def Header.pixelSize (h : Header) : Nat :=
  if h.sample = .double then 2 * h.channels else h.channels

/-- Takes a portable anymap. -/
def read : Reading Picture := do
  let h ← header
  checkSize h.width h.height h.pixelSize
  if h.sample = .bit ∧ ¬ h.spelled then packedBits h.width h.height
  else picturePixels h.width h.height h.pixel

end Easel.PictureFile.Anymap
