import Easel.Json.Basic

/-!
# Numbers that can be held

Who takes in a number before its meaning is known keeps a whole number below
`2 ^ 64` as it is and makes a binary float of any other. That float is not the
one nearest to the number. Digits are taken from the left as long as they fit 64
bits, and those that are left only count as places; what was taken is rounded to
53 bits, and so is the power of ten by which it is multiplied. The product has to
be in the range of floats.

Both factors are rounded before they are multiplied, so at the end of the range
one number can be held in one spelling and not in another.
-/

namespace Easel.Json

/-- Appends digits to `n` as long as the number stays below `2 ^ 64`. The second
component is the number of digits that are left. -/
def appendDigits (n : Nat) : List Char → Nat × Nat
  | [] => (n, 0)
  | c :: cs =>
    let longer := n * 10 + (c.toNat - '0'.toNat)
    if longer < 18446744073709551616 then appendDigits longer cs else (n, cs.length + 1)

/-- The nearest number with at most 53 significant bits, the even one of two. -/
def roundTo53 (n : Nat) : Nat :=
  let unit := Nat.pow 2 (n.log2 - 52)
  let whole := n / unit
  let rest := n % unit
  if unit < 2 * rest ∨ (unit = 2 * rest ∧ whole % 2 = 1) then (whole + 1) * unit
  else whole * unit

/-- The least product that is rounded out of the range of floats: half a unit
beyond the largest float. -/
def floatLimit : Nat :=
  Nat.pow 2 1024 - Nat.pow 2 970

/-- The float of `significand * 10 ^ exponent` is in range. A negative exponent
only makes it smaller. -/
def inFloatRange (significand : Nat) (exponent : Int) : Bool :=
  if significand = 0 ∨ exponent < 0 then true
  else if 308 < exponent then false
  else roundTo53 significand * roundTo53 (Nat.pow 10 exponent.toNat) < floatLimit

/-- The float of a number is in range. -/
def holdsDigits (whole fraction : List Char) (exponent : Int) : Bool :=
  let (taken, left) := appendDigits 0 whole
  -- the point gives digits another chance, even where some before it are left
  let (taken, ignored) := appendDigits taken fraction
  inFloatRange taken (exponent + left - (fraction.length - ignored : Nat))

/-- The value itself, without what is in it, can be held. -/
def holds : Json → Bool
  | natural n => n < 18446744073709551616 || holdsDigits (Nat.toDigits 10 n) [] 0
  | decimal _ whole fraction exponent => holdsDigits whole fraction exponent
  | garbled => false
  | _ => true

end Easel.Json
