import Easel.Json.Basic

/-!
# Reading JSON

`Json.read?` accepts one value with blanks around it and nothing else. The
grammar is the strict one: no leading zeros, no commas after the last item, no
control characters in texts. Numbers of any size and values of any depth are
read; what is too large is for the reader of the value to say.

A recursive call takes one unit of fuel. Two calls at most go without taking a
character, so twice the length of the text is enough.
-/

namespace Easel.Json

/-- The text from its first character that is not one of JSON's four blanks. -/
def skipBlanks (cs : List Char) : List Char :=
  cs.dropWhile fun c => c = ' ' ∨ c = '\n' ∨ c = '\t' ∨ c = '\r'

/-- The value of a hexadecimal digit. -/
def hexValue? (c : Char) : Option Nat :=
  if c.isDigit then some (c.toNat - '0'.toNat)
  else if 'a' ≤ c ∧ c ≤ 'f' then some (c.toNat - 'a'.toNat + 10)
  else if 'A' ≤ c ∧ c ≤ 'F' then some (c.toNat - 'A'.toNat + 10)
  else none

/-- The value of four hexadecimal digits. -/
def hexUnit? (a b c d : Char) : Option Nat := do
  let a ← hexValue? a
  let b ← hexValue? b
  let c ← hexValue? c
  let d ← hexValue? d
  return ((a * 16 + b) * 16 + c) * 16 + d

/-- The character that a letter after a backslash stands for. -/
def unescape? : Char → Option Char
  | '"' => some '"'
  | '\\' => some '\\'
  | '/' => some '/'
  | 'b' => some '\x08'
  | 'f' => some '\x0c'
  | 'n' => some '\n'
  | 'r' => some '\r'
  | 't' => some '\t'
  | _ => none

/-- What has been read of a text literal. -/
structure Passage where
  /-- The characters, the last one first. -/
  read : List Char := []
  /-- The first half of a surrogate pair, if it has just been read. -/
  half : Option Nat := none
  /-- No half of a pair stood alone before. -/
  sound : Bool := true

namespace Passage

/-- The passage after one more character. A half before it stood alone. -/
def push (p : Passage) (c : Char) : Passage where
  read := c :: p.read
  sound := p.sound && p.half.isNone

/-- The passage after one more unit of sixteen bits. -/
def pushUnit (p : Passage) (n : Nat) : Passage :=
  if 0xD800 ≤ n ∧ n < 0xDC00 then
    { p with half := some n, sound := p.sound && p.half.isNone }
  else if 0xDC00 ≤ n ∧ n < 0xE000 then
    match p.half with
    | some h =>
      { p with
        read := Char.ofNat (0x10000 + (h - 0xD800) * 0x400 + (n - 0xDC00)) :: p.read
        half := none }
    | none => { p with sound := false }
  else
    p.push (Char.ofNat n)

/-- The text of the passage, if all of it is characters. -/
def text? (p : Passage) : Option String :=
  if p.sound && p.half.isNone then some (String.ofList p.read.reverse) else none

end Passage

/-- Reads the rest of a text literal. The text is absent if it is garbled. -/
def literal (p : Passage) : List Char → Option (Option String × List Char)
  | [] => none
  | '"' :: rest => some (p.text?, rest)
  | '\\' :: 'u' :: a :: b :: c :: d :: rest =>
    match hexUnit? a b c d with
    | some n => literal (p.pushUnit n) rest
    | none => none
  | '\\' :: c :: rest =>
    match unescape? c with
    | some c => literal (p.push c) rest
    | none => none
  | c :: rest => if c.toNat < 0x20 then none else literal (p.push c) rest

/-- The digits in front, of which there has to be one. -/
def digitsIn (cs : List Char) : Option (List Char × List Char) :=
  match cs.takeWhile Char.isDigit with
  | [] => none
  | ds => some (ds, cs.dropWhile Char.isDigit)

/-- The digits of a whole number in front, which do not begin with a zero unless
the zero is all. -/
def wholeIn : List Char → Option (List Char × List Char)
  | '0' :: rest =>
    match rest with
    | c :: _ => if c.isDigit then none else some (['0'], rest)
    | [] => some (['0'], rest)
  | cs => digitsIn cs

/-- The digits after a point in front, or none if there is no point. -/
def fractionIn : List Char → Option (Option (List Char) × List Char)
  | '.' :: rest => (digitsIn rest).map fun (ds, rest) => (some ds, rest)
  | cs => some (none, cs)

/-- The exponent in front, or none if there is no letter for it. -/
def exponentIn : List Char → Option (Option Int × List Char)
  | c :: rest =>
    if c = 'e' ∨ c = 'E' then
      match rest with
      | '-' :: rest => (digitsIn rest).map fun (ds, rest) => (some (-(value ds : Int)), rest)
      | '+' :: rest => (digitsIn rest).map fun (ds, rest) => (some (value ds : Int), rest)
      | rest => (digitsIn rest).map fun (ds, rest) => (some (value ds : Int), rest)
    else some (none, c :: rest)
  | [] => some (none, [])
where
  /-- The value of digits. -/
  value (ds : List Char) : Nat := Nat.ofDigitChars 10 ds 0

/-- Reads a number. -/
def number (cs : List Char) : Option (Json × List Char) := do
  let (negative, cs) :=
    match cs with
    | '-' :: rest => (true, rest)
    | cs => (false, cs)
  let (whole, cs) ← wholeIn cs
  let (fraction, cs) ← fractionIn cs
  let (exponent, cs) ← exponentIn cs
  if !negative && fraction.isNone && exponent.isNone then
    return (natural (Nat.ofDigitChars 10 whole 0), cs)
  else
    return (decimal negative whole (fraction.getD []) (exponent.getD 0), cs)

/-- The value of a text literal. -/
def ofLiteral : Option String → Json
  | some s => string s
  | none => garbled

/-- The object with the given fields, the last one first. -/
def ofFields (sound : Bool) (fields : List (String × Json)) : Json :=
  if sound then object fields.reverse else garbled

mutual

/-- Reads a value that begins with the first character. -/
def value : Nat → List Char → Option (Json × List Char)
  | 0, _ => none
  | fuel + 1, cs =>
    match cs with
    | 'n' :: 'u' :: 'l' :: 'l' :: rest => some (null, rest)
    | 't' :: 'r' :: 'u' :: 'e' :: rest => some (bool true, rest)
    | 'f' :: 'a' :: 'l' :: 's' :: 'e' :: rest => some (bool false, rest)
    | '"' :: rest => (literal {} rest).map fun (s, rest) => (ofLiteral s, rest)
    | '[' :: rest =>
      match skipBlanks rest with
      | ']' :: rest => some (array [], rest)
      | cs => items fuel [] cs
    | '{' :: rest =>
      match skipBlanks rest with
      | '}' :: rest => some (object [], rest)
      | cs => fields fuel true [] cs
    | cs => number cs
termination_by structural fuel => fuel

/-- Reads the items of an array from the first character of one of them. -/
def items : Nat → List Json → List Char → Option (Json × List Char)
  | 0, _, _ => none
  | fuel + 1, done, cs =>
    match value fuel cs with
    | none => none
    | some (v, rest) =>
      match skipBlanks rest with
      | ',' :: rest => items fuel (v :: done) (skipBlanks rest)
      | ']' :: rest => some (array (v :: done).reverse, rest)
      | _ => none
termination_by structural fuel => fuel

/-- Reads the fields of an object from the first character of one of them. -/
def fields : Nat → Bool → List (String × Json) → List Char → Option (Json × List Char)
  | 0, _, _, _ => none
  | fuel + 1, sound, done, cs =>
    match cs with
    | '"' :: rest =>
      match literal {} rest with
      | none => none
      | some (k, rest) =>
        match skipBlanks rest with
        | ':' :: rest =>
          match value fuel (skipBlanks rest) with
          | none => none
          | some (v, rest) =>
            -- a garbled name spoils the object, but what follows is still read
            let sound := sound && k.isSome
            let done := (k.getD "", v) :: done
            match skipBlanks rest with
            | ',' :: rest => fields fuel sound done (skipBlanks rest)
            | '}' :: rest => some (ofFields sound done, rest)
            | _ => none
        | _ => none
    | _ => none
termination_by structural fuel => fuel

end

/-- The value of a text. -/
def ofChars? (cs : List Char) : Option Json :=
  match value (2 * cs.length + 2) (skipBlanks cs) with
  | some (v, rest) => if skipBlanks rest = [] then some v else none
  | none => none

/-- The value of a text. -/
def read? (text : String) : Option Json :=
  ofChars? text.toList

end Easel.Json
