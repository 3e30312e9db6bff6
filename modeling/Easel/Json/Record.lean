import Easel.Json.Basic

/-!
# Records, options and tuples in JSON

A record is written as an object with its fields under their names. It is read
from such an object, in which other fields are ignored and no field of the
record may occur twice, and also from an array of the fields in their order,
where the last ones may be missing.
-/

namespace Easel.Json

/-- The whole number below `limit` that a value is. -/
def natural? (limit : Nat) : Json → Option Nat
  | natural n => if n < limit then some n else none
  | _ => none

/-- The text that a value is. -/
def string? : Json → Option String
  | string s => some s
  | _ => none

/-- The items of an array. -/
def array? : Json → Option (List Json)
  | array items => some items
  | _ => none

/-- The value of a field that may be missing or null. -/
def optional? {α : Type} (read : Json → Option α) : Option Json → Option (Option α)
  | none | some null => some none
  | some v => (read v).map some

/-- The value of the field `name`, or `none` if it is missing. A field must not
occur twice. -/
def field? (name : String) (fields : List (String × Json)) : Option (Option Json) :=
  match fields.filter (·.1 = name) with
  | [] => some none
  | [(_, v)] => some (some v)
  | _ => none

/-- The values of the fields of a record, in the order of their names. -/
def record? (names : List String) : Json → Option (List (Option Json))
  | object fields => names.mapM fun name => field? name fields
  | array items =>
    if items.length ≤ names.length then
      some (items.map some ++ List.replicate (names.length - items.length) none)
    else none
  | _ => none

end Easel.Json
