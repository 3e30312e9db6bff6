/-!
# Growing dictionaries of words

Data is packed as codes of words. In the beginning there are the words of a single
byte. Every code that is read adds the word before it, made longer by the first byte
of its own word; so codes become longer while data is read, up to twelve bits. One
code empties the dictionary again and one ends the data.
-/

namespace Easel.Packing.Lzw

/-- How codes are laid out in bytes. -/
structure Style where
  /-- The number of bits of a single byte's code, which is less than twelve. -/
  width : Nat
  /-- Bits are read from the highest of each byte on and not from the lowest. -/
  highFirst : Bool
  /-- Codes become longer one code earlier than they have to, and the first code has
  to empty the dictionary. -/
  early : Bool

/-- The code that empties the dictionary. -/
def Style.clear (s : Style) : Nat := Nat.pow 2 s.width

/-- The code that ends the data. -/
def Style.finish (s : Style) : Nat := s.clear + 1

/-- A word of the dictionary. -/
structure Word where
  /-- Its first byte. -/
  first : UInt8
  /-- Its bytes, the last one first. -/
  reversed : List UInt8
  length : Nat

/-- The word of a single byte. -/
def Word.single (b : UInt8) : Word := ⟨b, [b], 1⟩

/-- The word with one byte more. -/
def Word.push (w : Word) (b : UInt8) : Word := ⟨w.first, b :: w.reversed, w.length + 1⟩

/-- What is known while codes are read. -/
structure State where
  /-- The words that have been added, from the code behind the last special one on. -/
  words : Array Word := #[]
  /-- The number of bits of the next code. -/
  length : Nat
  /-- The word of the code before, if there is one. -/
  last : Option Word := none
  /-- The unpacked bytes, the last one first. -/
  done : List UInt8 := []
  /-- The number of unpacked bytes. -/
  size : Nat := 0

/-- The state with an empty dictionary. -/
def State.restart (style : Style) (s : State) : State :=
  { s with words := #[], length := style.width + 1, last := none }

/-- The code that the next word gets. -/
def State.free (style : Style) (s : State) : Nat :=
  style.finish + 1 + s.words.size

/-- The word of a code that is in the dictionary. -/
def State.word? (style : Style) (s : State) (code : Nat) : Option Word :=
  if code < style.clear then some (.single (UInt8.ofNat code))
  else if style.finish < code then s.words[code - style.finish - 1]?
  else none

/-- The state with the word of a code at the end of what is unpacked. -/
def State.put (s : State) (w : Word) : State :=
  { s with last := some w, done := w.reversed ++ s.done, size := s.size + w.length }

/-- The state with one word more in the dictionary, which may make codes longer. A
dictionary of 4096 words is full. -/
def State.add (style : Style) (s : State) (w : Word) : State :=
  let code := s.free style
  if 4096 ≤ code then s
  else
    let last := Nat.pow 2 s.length - 1 - (if style.early then 1 else 0)
    { s with
      words := s.words.push w
      length := if last ≤ code ∧ s.length < 12 then s.length + 1 else s.length }

/-- The state after a code that is neither special nor refused. -/
def State.read? (style : Style) (s : State) (code : Nat) : Option State :=
  match s.last, s.word? style code with
  | none, some w => some (s.put w)
  | some last, some w => some ((s.add style (last.push w.first)).put w)
  | some last, none =>
    -- only the word that this very code adds can be missing
    if code = s.free style then
      let w := last.push last.first
      some ((s.add style w).put w)
    else none
  | none, none => none

/-- The number of the first `n` bits, and the bits behind them. -/
def code? (style : Style) (n : Nat) (bits : List Bool) : Option (Nat × List Bool) :=
  let (front, rest) := bits.splitAt n
  if front.length < n then none
  else
    let value (bits : List Bool) : Nat := bits.foldl (fun m b => 2 * m + b.toNat) 0
    some (value (if style.highFirst then front else front.reverse), rest)

/-- Reads codes until `wanted` bytes are unpacked or the data ends. `none` says that
the data is not packed in this way. -/
def unpackFrom (style : Style) (wanted : Nat) : Nat → State → List Bool → Option State
  | 0, s, _ => some s
  | fuel + 1, s, bits =>
    if wanted ≤ s.size then some s
    else
      match code? style s.length bits with
      | none => some s
      | some (code, bits) =>
        if code = style.clear then unpackFrom style wanted fuel (s.restart style) bits
        else if code = style.finish then some s
        else
          match s.read? style code with
          | some s => unpackFrom style wanted fuel s bits
          | none => none

/-- The bits of bytes in the order in which they are read. -/
def bitsOf (style : Style) (data : List UInt8) : List Bool :=
  data.flatMap fun b =>
    let bits := (List.range 8).map fun i => b.toNat.testBit i
    if style.highFirst then bits.reverse else bits

/-- The first `wanted` bytes of packed data, or less if there are less. -/
def unpack (style : Style) (wanted : Nat) (data : List UInt8) : Option (List UInt8) := do
  let bits := bitsOf style data
  let start : State := { length := style.width + 1 }
  if style.early ∧ 0 < data.length
      ∧ (code? style (style.width + 1) bits).any (fun (code, _) => code ≠ style.clear) then none
  else
    let s ← unpackFrom style wanted (bits.length + 1) start bits
    return s.done.reverse.take wanted

end Easel.Packing.Lzw
