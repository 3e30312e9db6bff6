import Easel.Json.Magnitude
import Easel.Json.Reader
import Easel.Json.Printer
import Easel.Json.Record
import Easel.Verdict

/-!
# Reports in JSON

A report is an object in which `result` says whether the program was carried
out. It is read from an object with its fields in any order, and also from an
array with the result first.

The other fields are taken in before their meaning is known. So all of them,
known or not, have to be values that can be held: no garbled texts, no numbers
beyond the range of floats, and no more than 127 levels.
-/

namespace Easel

/-- The deepest nesting of a value that is held before it is understood. -/
def Json.maxDepth : Nat := 127

/-- The report as an object. A line that is absent is not written. -/
def Report.toJson : Report → Json
  | success cost => .object [("result", .string "success"), ("cost", .natural cost)]
  | error text line =>
    .object
      ([("result", .string "error"), ("err", .string text)]
        ++ match line with
          | some n => [("line", .natural n)]
          | none => [])

/-- A success from the fields beside the result. -/
def Report.successOf? (j : Json) : Option Report := do
  match ← j.record? ["cost"] with
  | [some cost] => return success (← cost.natural? 18446744073709551616)
  | _ => none

/-- An error from the fields beside the result. -/
def Report.errorOf? (j : Json) : Option Report := do
  match ← j.record? ["err", "line"] with
  | [some text, line] =>
    let text ← text.string?
    let line ← Json.optional? (Json.natural? 18446744073709551616) line
    return error text line
  | _ => none

/-- The report of a result and what stands beside it. -/
def Report.ofResult? (result : Json) (rest : Json) : Option Report :=
  match result with
  | .string "success" => successOf? rest
  | .string "error" => errorOf? rest
  | _ => none

/-- The report of an object or an array. -/
def Report.ofJson? (j : Json) : Option Report :=
  if j.depth ≤ Json.maxDepth ∧ j.all Json.holds then
    match j with
    | .object fields =>
      -- the result may stand anywhere, and what it means for the rest is known only then
      match fields.filter (·.1 = "result") with
      | [(_, result)] => ofResult? result (.object (fields.filter (·.1 ≠ "result")))
      | _ => none
    | .array (result :: rest) => ofResult? result (.array rest)
    | _ => none
  else none

/-- The report as a text without any space. -/
def Report.text (r : Report) : String :=
  r.toJson.compact

end Easel
