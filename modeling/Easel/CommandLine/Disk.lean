import Easel.CommandLine.FileSystem
import Easel.CommandLine.Path

/-!
# Directories as values

A `Disk` holds files and directories, and a path is walked through it name by
name: every name is looked up in a directory that has to be there, also where the
next name leads back up. So a path may fail although the same path without the
detour would not.

The walk begins in the directory in which the program runs or, if the path begins
with a slash, at the root. Of all that lies outside the first one only the few
places are there that every such system has. What is made on the way to a failure
stays made.
-/

namespace Easel.CommandLine

/-- The places that are always there. -/
inductive Base where
  /-- The root of all directories. -/
  | root
  /-- The directory `levels` above the one in which the program runs. -/
  | above (levels : Nat)
deriving DecidableEq, Repr

/-- A place that names lead to from one that is always there. -/
structure Spot where
  base : Base
  /-- The names, the last one first. -/
  names : List String := []
deriving DecidableEq, Repr

namespace Spot

/-- The directory in which the program runs. -/
def here : Spot where
  base := .above 0

/-- The place under a name. -/
def child (s : Spot) (name : String) : Spot :=
  { s with names := name :: s.names }

/-- The place above. Above the root is the root. -/
def parent (s : Spot) : Spot :=
  match s.names, s.base with
  | _ :: names, base => { base, names }
  | [], .root => s
  | [], .above levels => { base := .above (levels + 1) }

end Spot

/-- What stands at a place. -/
inductive Entry where
  | file (file : File)
  | directory
  /-- A file that is always empty and keeps nothing that is written. -/
  | sink

/-- Files and directories. -/
structure Disk where
  entries : List (Spot × Entry)

namespace Disk

/-- The longest name, in bytes. -/
def nameLimit : Nat := 255

/-- The longest path, in bytes. -/
def pathLimit : Nat := 4095

/-- The disk before anything is put on it. -/
def standard : Disk where
  entries :=
    [ ({ base := .root, names := ["tmp"] }, .directory),
      ({ base := .root, names := ["dev"] }, .directory),
      ({ base := .root, names := ["null", "dev"] }, .sink) ]

/-- What stands at a place, if anything does. -/
def entry? (d : Disk) (spot : Spot) : Option Entry :=
  if spot.names = [] then some .directory else d.entries.lookup spot

/-- The disk with an entry at a place. -/
def put (d : Disk) (spot : Spot) (entry : Entry) : Disk where
  entries := (spot, entry) :: d.entries.filter (·.1 ≠ spot)

/-- The place has to be a directory. -/
def asDirectory (d : Disk) (spot : Spot) : Except Obstacle Spot :=
  match d.entry? spot with
  | some .directory => .ok spot
  | some _ => .error .notDirectory
  | none => .error .absent

/-- The place that a segment of a path leads to. -/
def enter (d : Disk) (spot : Spot) (name : String) : Except Obstacle Spot := do
  let spot ← d.asDirectory spot
  if Path.Idle name then return spot
  else if name = ".." then return spot.parent
  else if nameLimit < name.utf8ByteSize then throw .tooLong
  else if (d.entry? (spot.child name)).isSome then return spot.child name
  else throw .absent

/-- The place that all segments but the last lead to, and the last segment. -/
def locate (d : Disk) (path : String) : Except Obstacle (Spot × String) := do
  if pathLimit < path.utf8ByteSize then throw .tooLong
  else if path = "" then throw .absent
  else
    let start : Spot := if path.toList.head? = some '/' then { base := .root } else .here
    let segments := Path.segments path
    let spot ← segments.dropLast.foldlM d.enter start
    return (spot, segments.getLastD "")

/-- The place that a path leads to. -/
def resolve (d : Disk) (path : String) : Except Obstacle Spot := do
  let (spot, name) ← d.locate path
  d.enter spot name

/-- Opens what stands at a path. -/
def read (d : Disk) (path : String) : Except Obstacle Place := do
  match d.entry? (← d.resolve path) with
  | some (.file file) => return .file file
  | some .sink => return .file { text := some "" }
  | some .directory => return .directory
  | none => throw .absent

/-- A directory stands at the path. -/
def isDirectory (d : Disk) (path : String) : Bool :=
  match d.read path with
  | .ok .directory => true
  | _ => false

/-- Work on a disk. Where it fails, what was done before stays done. -/
abbrev Work (ε : Type) := EStateM ε Disk

/-- Makes a directory. -/
def makeDirectory (path : String) : Work Obstacle Unit := fun d =>
  match d.locate path with
  | .error o => .error o d
  | .ok (spot, name) =>
    match d.enter spot name with
    | .ok _ => .error .occupied d
    | .error .absent => .ok () (d.put (spot.child name) .directory)
    | .error o => .error o d

/-- Makes the first of the given directories and, if need be, those that follow,
each of which is above the one before. -/
def makeDirectories : List String → Work Obstacle Unit
  | [] => return ()
  | path :: above => fun d =>
    match makeDirectory path d with
    | .ok () d => .ok () d
    | .error .absent d =>
      match makeDirectories above d with
      | .error o d => .error o d
      | .ok () d =>
        match makeDirectory path d with
        | .ok () d => .ok () d
        -- with the directories above, the path itself may have come into being
        | .error o d => if o = .occupied ∧ d.isDirectory path then .ok () d else .error o d
    | .error o d => if o = .occupied ∧ d.isDirectory path then .ok () d else .error o d

/-- Writes a file, in the place of an old one or where nothing is. -/
def write (path : String) (file : File) : Work Obstacle Unit := fun d =>
  match d.locate path with
  | .error o => .error o d
  | .ok (spot, name) =>
    match d.enter spot name with
    | .ok there =>
      match d.entry? there with
      | some .directory => .error .directory d
      | some .sink => .ok () d
      | _ => .ok () (d.put there (.file file))
    | .error .absent => .ok () (d.put (spot.child name) (.file file))
    | .error o => .error o d

/-- Writes a file after the directories above it have been made. -/
def save (path : String) (file : File) : Work SaveFault Unit := do
  let above := (Path.parent? path).getD ""
  EStateM.adaptExcept (fun _ => .directoryUnmade above) (makeDirectories (Path.upwards above))
  EStateM.adaptExcept (fun _ => .unwritten) (write path file)

/-- The result of work, whatever it is, and the disk after it. -/
def attempt {ε α : Type} (work : Work ε α) : StateM Disk (Except ε α) := fun d =>
  match work d with
  | .ok a d => (.ok a, d)
  | .error e d => (.error e, d)

/-- The disk as a file system. -/
def fileSystem : FileSystem (StateM Disk) where
  read path := return (← get).read path
  save path frame := attempt (save path (.ofFrame frame))

/-- The disk with the given files. Of two files at one path the last one stays. -/
def ofFiles (files : List (String × File)) : Disk :=
  files.foldl (fun d (path, file) => (attempt (save path file) d).2) standard

end Disk

end Easel.CommandLine
