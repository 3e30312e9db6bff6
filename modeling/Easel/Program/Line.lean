import Easel.Instruction
import Easel.Text.Blank

/-!
# The grammar of a line

A line that is blank does nothing, and a line whose first character is a hash is
a comment. From any other line all blanks are removed, and what remains has to
be one of

    color[ID][B,B,B,B]    cut[ID][N,N]    cut[ID][x][N]    cut[ID][y][N]
    swap[ID][ID]          merge[ID][ID]

where `N` is a number below `2 ^ 32` without leading zeros, `B` one below 256,
and `ID` consists of numbers of any length with points between them. The axis of
a cut may be a capital letter. The text is read from left to right and the first
character that does not fit is reported.
-/

namespace Easel

/-- A place in a text without blanks: what follows, and how many bytes went
before. -/
structure Cursor where
  /-- What follows. -/
  rest : List Char
  /-- The number of bytes that went before. -/
  position : Nat := 0
deriving DecidableEq, Repr

/-- Reading forwards from a place, until something does not fit. -/
abbrev Scan := StateT Cursor (Except LineFault)

namespace Scan

/-- The character whose code is the first byte of `c` in UTF-8. -/
def leadByte (c : Char) : Char :=
  let n := c.toNat
  if n < 0x80 then c
  else if n < 0x800 then Char.ofNat (0xC0 + n / 0x40)
  else if n < 0x10000 then Char.ofNat (0xE0 + n / 0x1000)
  else Char.ofNat (0xF0 + n / 0x40000)

/-- Reads the character `want`, which is in ASCII. -/
def expect (want : Char) : Scan Unit := fun s =>
  match s.rest with
  | [] => .error (.expectedAtEnd want)
  | c :: rest =>
    if c = want then .ok ((), { rest, position := s.position + 1 })
    else .error (.expected want s.position (leadByte c))

/-- Reads the end of the line. -/
def expectEnd : Scan Unit := fun s =>
  match s.rest with
  | [] => .ok ((), s)
  | _ :: _ => .error (.trailing s.position)

/-- Reads all characters of an ASCII class that follow. -/
def span (p : Char → Bool) : Scan (List Char) := fun s =>
  let taken := s.rest.takeWhile p
  -- a character of ASCII is one byte
  .ok (taken, { rest := s.rest.dropWhile p, position := s.position + taken.length })

/-- Reads the digits of a number: a zero alone, or any digits after a first one
that is not zero. -/
def digits : Scan (List Char) := fun s =>
  match s.rest with
  | [] => .error .expectedNumberAtEnd
  | c :: rest =>
    if c = '0' then
      match rest with
      | d :: _ => if d.isDigit then .error (.leadingZero s.position)
        else .ok ([c], { rest, position := s.position + 1 })
      | [] => .ok ([c], { rest, position := s.position + 1 })
    else if c.isDigit then span Char.isDigit s
    else .error (.expectedNumber s.position (leadByte c))

/-- Reads a number of 32 bits. -/
def number : Scan Coordinate := do
  let start := (← get).position
  let n := Nat.ofDigitChars 10 (← digits) 0
  if h : n < 4294967296 then return ⟨n, h⟩ else throw (.outOfRange start)

/-- Reads a number of 8 bits. -/
def channel : Scan UInt8 := do
  let start := (← get).position
  let n ← number
  if n.val < 256 then return UInt8.ofNat n.val else throw (.channelTooLarge start)

/-- Reads the numbers of a name that come with a point in front. The text is
longer than the number of points in it. -/
def dotted : Nat → Scan (List Char)
  | 0 => return []
  | n + 1 => do
    match (← get).rest with
    | '.' :: _ =>
      expect '.'
      let ds ← digits
      return '.' :: ds ++ (← dotted n)
    | _ => return []

/-- Reads the name of a block in brackets. -/
def blockId : Scan String := do
  expect '['
  let first ← digits
  let rest ← dotted (← get).rest.length
  expect ']'
  return String.ofList (first ++ rest)

/-- Reads a colour in brackets. -/
def colour : Scan Rgba := do
  expect '['
  let r ← channel
  expect ','
  let g ← channel
  expect ','
  let b ← channel
  expect ','
  let a ← channel
  expect ']'
  return { r, g, b, a }

/-- Reads the place of a cut of the block `id`. -/
def cut (id : String) : Scan Instruction := do
  expect '['
  match (← get).rest with
  | 'x' :: _ | 'X' :: _ => return .verticalCut id (← line)
  | 'y' :: _ | 'Y' :: _ => return .horizontalCut id (← line)
  | _ =>
    let x ← number
    expect ','
    let y ← number
    expect ']'
    return .pointCut id (.ofCoordinates x y)
where
  /-- Reads the rest of an axis and the line. -/
  line : Scan Coordinate := do
    -- the letter of the axis
    modify fun s => { rest := s.rest.tail, position := s.position + 1 }
    expect ']'
    expect '['
    let n ← number
    expect ']'
    return n

/-- Reads what follows the first word of an instruction. -/
def operands (word : String) : Scan Instruction :=
  match word with
  | "color" => do
    let id ← blockId
    return .colour id (← colour)
  | "cut" => do cut (← blockId)
  | "swap" => do
    let id₁ ← blockId
    return .swap id₁ (← blockId)
  | "merge" => do
    let id₁ ← blockId
    return .merge id₁ (← blockId)
  | _ => throw (.unknownWord word)

/-- Reads an instruction and the end of the line. -/
def instruction : Scan Instruction := do
  let word ← span Char.isAlpha
  let i ← operands (String.ofList word)
  expectEnd
  return i

end Scan

/-- Reads the text of a line without its line number. -/
def Instruction.ofChars (cs : List Char) : Except LineFault Instruction :=
  match Text.trimStart cs with
  | [] => .ok .blank
  | '#' :: text => .ok (.comment (String.ofList (Text.trim text)))
  | _ => (·.1) <$> Scan.instruction { rest := Text.compact cs }

/-- Reads a line of a program. -/
def Instruction.ofLine (line : Nat) (text : String) : Except Error Instruction :=
  match ofChars text.toList with
  | .ok i => .ok i
  | .error fault => .error (.malformed line (String.ofList (Text.compact text.toList)) fault)

end Easel
