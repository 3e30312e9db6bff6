import Easel.Json.Basic

/-!
# Writing JSON

`Json.compact` writes a value without any space. `Json.pretty` gives every item
and every field a line of its own, two columns further in than what encloses it;
an empty array or object stays on its line. In both, a text is written as it is,
but for quotes, backslashes and the characters below the space, which are
escaped, with a letter where JSON has one.
-/

namespace Easel.Json

/-- The digit of a number below sixteen. -/
def hexDigit (n : Nat) : Char :=
  Nat.digitChar n

/-- A character as it stands in a text literal. -/
def escape (c : Char) : List Char :=
  match c with
  | '"' => ['\\', '"']
  | '\\' => ['\\', '\\']
  | '\x08' => ['\\', 'b']
  | '\x0c' => ['\\', 'f']
  | '\n' => ['\\', 'n']
  | '\r' => ['\\', 'r']
  | '\t' => ['\\', 't']
  | c =>
    if c.toNat < 0x20 then
      ['\\', 'u', '0', '0', hexDigit (c.toNat / 16), hexDigit (c.toNat % 16)]
    else [c]

/-- A text literal. -/
def quote (s : String) : List Char :=
  '"' :: s.toList.flatMap escape ++ ['"']

/-- The digits of a whole number. -/
def digits (n : Nat) : List Char :=
  Nat.toDigits 10 n

/-- A number with an exponent. -/
def scientific (negative : Bool) (whole fraction : List Char) (exponent : Int) : List Char :=
  (if negative then ['-'] else []) ++ whole ++ (if fraction = [] then [] else '.' :: fraction)
    ++ 'e' :: (if exponent < 0 then ['-'] else []) ++ digits exponent.natAbs

/-- A value that is neither an array nor an object. -/
def atom : Json → List Char
  | null => ['n', 'u', 'l', 'l']
  | bool true => ['t', 'r', 'u', 'e']
  | bool false => ['f', 'a', 'l', 's', 'e']
  | natural n => digits n
  | decimal negative whole fraction exponent => scientific negative whole fraction exponent
  | string text => quote text
  | garbled => ['"', '\\', 'u', 'd', '8', '0', '0', '"']
  | array _ | object _ => []

mutual

/-- The characters of a value without any space. -/
def chars : Json → List Char
  | array items => '[' :: charsOfItems items ++ [']']
  | object fields => '{' :: charsOfFields fields ++ ['}']
  | v => v.atom
termination_by structural v => v

/-- Items with commas between them. -/
def charsOfItems : List Json → List Char
  | [] => []
  | [v] => v.chars
  | v :: vs => v.chars ++ ',' :: charsOfItems vs
termination_by structural l => l

/-- Fields with commas between them. -/
def charsOfFields : List (String × Json) → List Char
  | [] => []
  | [(k, v)] => quote k ++ ':' :: v.chars
  | (k, v) :: fs => quote k ++ ':' :: v.chars ++ ',' :: charsOfFields fs
termination_by structural l => l

end

/-- The text of a value without any space. -/
def compact (v : Json) : String :=
  String.ofList v.chars

/-- A line end and the blanks in front of a line. -/
def newline (indent : Nat) : List Char :=
  '\n' :: List.replicate indent ' '

mutual

/-- The characters of a value on several lines, inside a line that begins with
`indent` blanks. -/
def lines (indent : Nat) : Json → List Char
  | array [] => ['[', ']']
  | array items =>
    '[' :: newline (indent + 2) ++ linesOfItems (indent + 2) items ++ newline indent ++ [']']
  | object [] => ['{', '}']
  | object fields =>
    '{' :: newline (indent + 2) ++ linesOfFields (indent + 2) fields ++ newline indent ++ ['}']
  | v => v.atom
termination_by structural v => v

/-- Items on lines of their own. -/
def linesOfItems (indent : Nat) : List Json → List Char
  | [] => []
  | [v] => v.lines indent
  | v :: vs => v.lines indent ++ ',' :: newline indent ++ linesOfItems indent vs
termination_by structural l => l

/-- Fields on lines of their own. -/
def linesOfFields (indent : Nat) : List (String × Json) → List Char
  | [] => []
  | [(k, v)] => quote k ++ ':' :: ' ' :: v.lines indent
  | (k, v) :: fs =>
    quote k ++ ':' :: ' ' :: v.lines indent ++ ',' :: newline indent ++ linesOfFields indent fs
termination_by structural l => l

end

/-- The text of a value on several lines. -/
def pretty (v : Json) : String :=
  String.ofList (v.lines 0)

end Easel.Json
