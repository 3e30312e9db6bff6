/-!
# JSON values

`Json` is the data model of JSON texts. Fields keep their order, a name may
occur twice, and numbers keep the two forms that readers tell apart: plain whole
numbers, and everything that has a sign, a point or an exponent. Of these the
digits are kept as they stand, since not all readers go by the exact value.

A literal can name half of a surrogate pair, and then no string holds its text.
Such a literal is the value `garbled`, and so is an object with such a name:
readers that look at it refuse it, and readers that skip it need not know more.
-/

namespace Easel

/-- A JSON value. -/
inductive Json where
  | null
  | bool (b : Bool)
  /-- A whole number without sign, point or exponent. -/
  | natural (n : Nat)
  /-- Another number, with its digits before and after the point. -/
  | decimal (negative : Bool) (whole fraction : List Char) (exponent : Int)
  | string (text : String)
  /-- A text that no string holds, or an object with such a name. -/
  | garbled
  | array (items : List Json)
  /-- An object with its fields in their order. -/
  | object (fields : List (String × Json))
deriving Repr

namespace Json

mutual

/-- The number of arrays and objects that lie around the innermost value. -/
def depth : Json → Nat
  | array items => depthOfItems items + 1
  | object fields => depthOfFields fields + 1
  | _ => 0
termination_by structural j => j

/-- The largest depth of the items. -/
def depthOfItems : List Json → Nat
  | [] => 0
  | v :: vs => max v.depth (depthOfItems vs)
termination_by structural l => l

/-- The largest depth of the fields. -/
def depthOfFields : List (String × Json) → Nat
  | [] => 0
  | (_, v) :: fs => max v.depth (depthOfFields fs)
termination_by structural l => l

end

mutual

/-- The predicate holds of the value and of all values in it. -/
def all (p : Json → Bool) : Json → Bool
  | array items => p (array items) && allItems p items
  | object fields => p (object fields) && allFields p fields
  | v => p v
termination_by structural j => j

/-- The predicate holds of the items and of all values in them. -/
def allItems (p : Json → Bool) : List Json → Bool
  | [] => true
  | v :: vs => v.all p && allItems p vs
termination_by structural l => l

/-- The predicate holds of the fields and of all values in them. -/
def allFields (p : Json → Bool) : List (String × Json) → Bool
  | [] => true
  | (_, v) :: fs => v.all p && allFields p fs
termination_by structural l => l

end

end Json

end Easel
