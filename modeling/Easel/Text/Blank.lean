/-!
# Blanks

The characters with the Unicode property White_Space, and the three ways in
which text is freed of them. A blank that is not in ASCII counts as much as a
space does.
-/

namespace Easel.Text

/-- The character has the Unicode property White_Space. -/
def IsBlank (c : Char) : Prop :=
  (9 ≤ c.toNat ∧ c.toNat ≤ 13) ∨ c.toNat = 0x20 ∨ c.toNat = 0x85 ∨ c.toNat = 0xA0 ∨
    c.toNat = 0x1680 ∨ (0x2000 ≤ c.toNat ∧ c.toNat ≤ 0x200A) ∨ c.toNat = 0x2028 ∨
    c.toNat = 0x2029 ∨ c.toNat = 0x202F ∨ c.toNat = 0x205F ∨ c.toNat = 0x3000

instance : DecidablePred IsBlank := fun c => by
  unfold IsBlank; infer_instance

/-- The text from its first character that is not blank. -/
def trimStart (cs : List Char) : List Char :=
  cs.dropWhile fun c => IsBlank c

/-- The text up to its last character that is not blank. -/
def trimEnd (cs : List Char) : List Char :=
  (trimStart cs.reverse).reverse

/-- The text without blanks at either end. -/
def trim (cs : List Char) : List Char :=
  trimEnd (trimStart cs)

/-- The text without any blank. -/
def compact (cs : List Char) : List Char :=
  cs.filter fun c => ¬ IsBlank c

end Easel.Text
