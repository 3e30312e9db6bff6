/-!
# Numbers in names and arguments

`Number.ofText?` reads a whole number generously: a plus sign may stand in
front, and zeros may lead. It is the reading of block names and of command line
arguments; the instructions of a program and the JSON forms have stricter
grammars of their own.
-/

namespace Easel.Number

/-- The value of a text of digits, if it has at least one and nothing else. -/
def ofDigits? (cs : List Char) : Option Nat :=
  if cs ≠ [] ∧ cs.all Char.isDigit then some (Nat.ofDigitChars 10 cs 0) else none

/-- The value of a text of digits below `limit` that may follow a plus sign. -/
def ofText? (limit : Nat) (s : String) : Option Nat :=
  let digits :=
    match s.toList with
    | '+' :: cs => cs
    | cs => cs
  (ofDigits? digits).filter (· < limit)

end Easel.Number
