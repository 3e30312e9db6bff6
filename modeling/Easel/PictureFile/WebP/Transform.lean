import Easel.PictureFile.WebP.Stream

/-!
# Changes of pixels

Before pixels are written they may be changed so that they take less bits: guessed
from their neighbours, freed of what their channels have in common, or replaced by
places in a palette, several of which may share a pixel. Here the changes are read
and taken back.
-/

namespace Easel.PictureFile.WebP

open Easel.Packing

/-- A change of the pixels. -/
inductive Change where
  /-- Every square of the given side has a way to guess, in green. -/
  | guessed (side : Nat) (ways : Array Rgba)
  /-- Every square of the given side has shares of green in red and in blue, and of
  red in blue. -/
  | mixed (side : Nat) (shares : Array Rgba)
  /-- Green has been taken off red and blue. -/
  | greenOff
  /-- Pixels are places in a palette. -/
  | palette (colours : Array Rgba)

namespace Change

/-- The number of the kind of a change. -/
def kind : Change → Nat
  | guessed .. => 0
  | mixed .. => 1
  | greenOff => 2
  | palette _ => 3

/-- The number of places in a palette that share a pixel. -/
def sharing (colours : Nat) : Nat :=
  if colours ≤ 2 then 8 else if colours ≤ 4 then 4 else if colours ≤ 16 then 2 else 1

/-! ## Guesses -/

/-- A function of channels as one of colours. -/
def eachChannel (f : Nat → Nat → Nat) (c d : Rgba) : Rgba where
  r := UInt8.ofNat (f c.r.toNat d.r.toNat)
  g := UInt8.ofNat (f c.g.toNat d.g.toNat)
  b := UInt8.ofNat (f c.b.toNat d.b.toNat)
  a := UInt8.ofNat (f c.a.toNat d.a.toNat)

/-- The sum of two colours, in which channels wrap around. -/
def sum : Rgba → Rgba → Rgba := eachChannel (· + ·)

/-- The mean of two colours, rounded down. -/
def mean : Rgba → Rgba → Rgba := eachChannel fun m n => (m + n) / 2

/-- The distance of two colours. -/
def distance (c d : Rgba) : Nat :=
  let off (m n : UInt8) : Nat := ((m.toNat : Int) - n.toNat).natAbs
  off c.r d.r + off c.g d.g + off c.b d.b + off c.a d.a

/-- The nearest channel to a number. -/
def clamp (n : Int) : UInt8 :=
  UInt8.ofNat (min n.toNat 255)

/-- The first colour with the difference of the other two. -/
def slope (c d e : Rgba) : Rgba :=
  let at_ (m n k : UInt8) : UInt8 := clamp ((m.toNat : Int) + n.toNat - k.toNat)
  ⟨at_ c.r d.r e.r, at_ c.g d.g e.g, at_ c.b d.b e.b, at_ c.a d.a e.a⟩

/-- The first colour with half of its difference from the other. The half is rounded
towards zero. -/
def halfSlope (c d : Rgba) : Rgba :=
  let at_ (m n : UInt8) : UInt8 := clamp (m.toNat + Int.tdiv ((m.toNat : Int) - n.toNat) 2)
  ⟨at_ c.r d.r, at_ c.g d.g, at_ c.b d.b, at_ c.a d.a⟩

/-- The guess from the pixels to the left, above, to the right above and to the left
above. -/
def guess (way : Nat) (left above right corner : Rgba) : Rgba :=
  match way with
  | 0 => ⟨0, 0, 0, 255⟩
  | 1 => left
  | 2 => above
  | 3 => right
  | 4 => corner
  | 5 => mean (mean left right) above
  | 6 => mean left corner
  | 7 => mean left above
  | 8 => mean corner above
  | 9 => mean above right
  | 10 => mean (mean left corner) (mean above right)
  -- the one of the two that changes as the guess does
  | 11 => if distance above corner < distance left corner then left else above
  | 12 => slope left above corner
  | 13 => halfSlope (mean left above) corner
  | _ => Rgba.transparent

/-- Adds the guesses to the pixels. -/
def addGuesses (side width : Nat) (ways pixels : Array Rgba) : Array Rgba :=
  pixels.foldl (fun done c =>
    let column := done.size % width
    let row := done.size / width
    let before (n : Nat) : Rgba := done.getD (done.size - n) Rgba.transparent
    let guess :=
      if row = 0 then if column = 0 then ⟨0, 0, 0, 255⟩ else before 1
      else if column = 0 then before width
      else
        let way := ways.getD (row / side * squares width side + column / side) Rgba.transparent
        -- the pixel to the right above the last one of a row is the first of its own row
        guess way.g.toNat (before 1) (before width) (before (width - 1)) (before (width + 1))
    done.push (sum c guess)) #[]

/-! ## Mixtures -/

/-- A byte as a number that can be negative. -/
def signed (b : UInt8) : Int :=
  if b < 128 then b.toNat else (b.toNat : Int) - 256

/-- The part of a channel that a share makes. -/
def partOf (share channel : UInt8) : UInt8 :=
  UInt8.ofNat ((signed share * signed channel).fdiv 32 % 256).toNat

/-- The colour with its shares. -/
def addShares (shares c : Rgba) : Rgba :=
  let r := c.r + partOf shares.b c.g
  { c with r, b := c.b + partOf shares.g c.g + partOf shares.r r }

/-! ## All changes -/

/-- Takes back a change of the pixels of a picture, which has the given width after
that. -/
def undo (width height : Nat) (pixels : Array Rgba) : Change → Array Rgba
  | guessed side ways => addGuesses side width ways pixels
  | mixed side shares =>
    pixels.mapIdx fun i c =>
      let share := shares.getD (i / width / side * squares width side + i % width / side)
        Rgba.transparent
      addShares share c
  | greenOff => pixels.map fun c => { c with r := c.r + c.g, b := c.b + c.g }
  | palette colours =>
    let n := sharing colours.size
    let written := squares width n
    Array.ofFn fun i : Fin (width * height) =>
      let column := i % width
      let c := pixels.getD (i / width * written + column / n) Rgba.transparent
      -- the lowest bits belong to the leftmost pixel
      let limit := Nat.pow 2 (8 / n)
      let place := c.g.toNat / Nat.pow limit (column % n) % limit
      colours.getD place Rgba.transparent

/-- Reads a change of the given kind in a picture of the given size. -/
def ofBits (kind width height : Nat) : BitReading Change := do
  let squared (change : Nat → Array Rgba → Change) : BitReading Change := do
    let side := Nat.pow 2 ((← Bits.number 3) + 2)
    return change side (← simpleStream (squares width side) (squares height side))
  match kind with
  | 0 => squared guessed
  | 1 => squared mixed
  | 2 => return greenOff
  | _ =>
    let n := (← Bits.number 8) + 1
    -- colours are written as differences from the one before
    let colours ← simpleStream n 1
    return palette (colours.foldl (fun done c =>
      done.push (sum c (done.back?.getD Rgba.transparent))) #[])

/-- Reads changes, of which no kind may come twice, and puts them in front of those
that are there, each with the width that a picture has after it is taken back. The
width of the written picture comes with them. -/
def changesFrom (height : Nat) :
    (fuel width : Nat) → List (Nat × Change) → BitReading (Nat × List (Nat × Change))
  | 0, _, _ => failure
  | fuel + 1, width, done => do
    if (← Bits.bit) = 0 then return (width, done)
    let kind ← Bits.number 2
    if done.any fun (_, c) => c.kind = kind then failure
    let change ← ofBits kind width height
    let next :=
      match change with
      | palette colours => squares width (sharing colours.size)
      | _ => width
    changesFrom height fuel next ((width, change) :: done)

end Change

/-- Reads the pixels of a picture. -/
def pixels (width height : Nat) : BitReading (Array Rgba) := do
  -- there are four kinds of changes
  let (written, changes) ← Change.changesFrom height 5 width []
  let pixels ← stream written height
  return changes.foldl (fun pixels (width, change) => change.undo width height pixels) pixels

end Easel.PictureFile.WebP
