import Easel.PictureFile.Reading

/-!
# Directories of tagged files

A tagged file says by its first two bytes in which order the bytes of a number
stand, and then where its directory is. A directory has entries, each of which gives
some values under a number that tells what they mean. Values that do not fit into
their entry stand elsewhere in the file.
-/

namespace Easel.PictureFile.Tiff

/-- An entry of a directory. -/
structure Entry where
  /-- What the values are. -/
  kind : Nat
  /-- The number of values. -/
  count : Nat
  /-- The bytes of the values or of the place where they stand. -/
  field : List UInt8

/-- The number of bytes of a value. -/
def sizeOf? (kind : Nat) : Option Nat :=
  if kind ∈ [1, 2, 6, 7] then some 1
  else if kind ∈ [3, 8] then some 2
  else if kind ∈ [4, 9, 11, 13] then some 4
  else if kind ∈ [5, 10, 12, 16, 17, 18] then some 8
  else none

/-- A tagged file. -/
structure Directory where
  bytes : List UInt8
  /-- The highest byte of a number comes first. -/
  highFirst : Bool
  /-- The entries with what they tell, in their order. -/
  entries : List (Nat × Entry)

/-- The number that bytes are. -/
def valueOf (high : Bool) (data : List UInt8) : Nat :=
  (if high then data else data.reverse).foldl (fun n b => n * 256 + b.toNat) 0

/-- Takes a number of `n` bytes. -/
def number (high : Bool) (n : Nat) : Reading Nat := do
  return valueOf high (← bytes n)

/-- Takes an entry. -/
def entry (high : Bool) : Reading (Nat × Entry) := do
  return (← number high 2,
    { kind := ← number high 2, count := ← number high 4, field := ← bytes 4 })

/-- Takes the first directory of a file, which has to be complete with the place of
the next one. -/
def directory : Reading Directory := do
  let file ← get
  let high ←
    match textOf (← bytes 2) with
    | "II" => pure false
    | "MM" => pure true
    | _ => failure
  if (← number high 2) ≠ 42 then failure
  let start ← number high 4
  if start = 0 then failure
  set (file.drop start)
  let entries ← repeated (entry high) (← number high 2) #[]
  let _ ← bytes 4
  return {
    bytes := file
    highFirst := high
    entries := entries.toList.filter fun (_, e) => (sizeOf? e.kind).isSome }

/-- Bytes in groups of `size`. -/
def groups (size : Nat) : Nat → List UInt8 → List (List UInt8)
  | 0, _ => []
  | n + 1, data => data.take size :: groups size n (data.drop size)

/-- The values of an entry, if they are whole numbers without a sign. -/
def Directory.valuesOf? (d : Directory) (e : Entry) : Option (List Nat) := do
  let size ← sizeOf? e.kind
  let length := e.count * size
  let data := if length ≤ 4 then e.field else d.bytes.drop (valueOf d.highFirst e.field)
  let data := data.take length
  if data.length = length ∧ e.kind ∈ [1, 3, 4, 13, 16, 18] then
    return (groups size e.count data).map (valueOf d.highFirst)
  else none

/-- The entry for a number. The last one counts. -/
def Directory.entry? (d : Directory) (tag : Nat) : Option Entry :=
  d.entries.reverse.lookup tag

/-- The values for a number, or `otherwise` if there is no entry for it. -/
def Directory.values? (d : Directory) (tag : Nat) (otherwise : List Nat) : Option (List Nat) :=
  match d.entry? tag with
  | some e => d.valuesOf? e
  | none => some otherwise

/-- The only value for a number, which is less than `limit`. -/
def Directory.value? (d : Directory) (limit tag : Nat) (otherwise : Option Nat) : Option Nat := do
  match ← d.values? tag otherwise.toList with
  | [n] => if n < limit then some n else none
  | _ => none

end Easel.PictureFile.Tiff
