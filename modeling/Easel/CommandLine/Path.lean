/-!
# Paths as texts

A path is a text of names with slashes between them. Before any directory is
looked at, its text alone says what the last name is, what extension that has and
which path stands above. An empty segment and a single dot lead nowhere: they are
passed over at the end of a path and kept where they stand in the middle.
-/

namespace Easel.CommandLine.Path

/-- The texts between the slashes. -/
def segments (path : String) : List String :=
  (path.toList.splitOn '/').map String.ofList

/-- A slash or a dot in front, which is no part of any name, and the rest. -/
def splitHead (path : String) : String × String :=
  match path.toList with
  | '/' :: rest => ("/", String.ofList rest)
  | ['.'] => (".", "")
  | '.' :: '/' :: rest => (".", String.ofList ('/' :: rest))
  | _ => ("", path)

/-- A segment that leads nowhere. -/
def Idle (segment : String) : Prop :=
  segment = "" ∨ segment = "."

instance (segment : String) : Decidable (Idle segment) :=
  inferInstanceAs (Decidable (_ ∨ _))

/-- The segments of a path from the last one on, without idle ones in front. -/
def reversed (body : String) : List String :=
  (segments body).reverse.dropWhile fun s => Idle s

/-- The path of reversed segments. -/
def join (head : String) (reversed : List String) : String :=
  head ++ "/".intercalate reversed.reverse

/-- The path above the last name. The root of all directories has none. -/
def parent? (path : String) : Option String :=
  let (head, body) := splitHead path
  match reversed body with
  | _ :: above => some (join head (above.dropWhile fun s => Idle s))
  | [] => if head = "." then some "" else none

/-- The paths that end with a name of the path, the longest one first. -/
def steps (head : String) : List String → List String
  | [] => []
  | s :: above =>
    if Idle s then steps head above else join head (s :: above) :: steps head above

/-- The path and all paths above it that have a name. -/
def upwards (path : String) : List String :=
  let (head, body) := splitHead path
  steps head (reversed body)

/-- The last name of a path, unless it leads upwards. -/
def name? (path : String) : Option String :=
  match reversed (splitHead path).2 with
  | last :: _ => if last = ".." then none else some last
  | [] => none

/-- The last name has the extension `extension`, in small or capital letters. A
point in front of the name does not begin an extension. -/
def HasExtension (extension path : String) : Prop :=
  match name? path with
  | none => False
  | some name =>
    match name.toList.reverse.span (· ≠ '.') with
    | (_, []) | (_, [_]) => False
    | (reversed, _) => reversed.reverse.map Char.toLower = extension.toList

instance (extension path : String) : Decidable (HasExtension extension path) := by
  unfold HasExtension
  repeat' split
  all_goals infer_instance

end Easel.CommandLine.Path
