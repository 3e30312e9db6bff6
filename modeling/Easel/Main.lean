import Easel.CommandLine.Session
import Easel.Png.Codec

/-!
# The command line program

Lets `CommandLine.run` answer on the file system of the machine, and prints what
the answer says.
-/

namespace Easel.CommandLine

/-- Why the machine does not open a path. -/
def Obstacle.ofError : IO.Error → Obstacle
  | .inappropriateType .. => .notDirectory
  | .invalidArgument .. => .tooLong
  | .permissionDenied .. => .forbidden
  | _ => .absent

/-- Opens what stands at a path of the machine. -/
def readMachine (path : String) : IO (Except Obstacle Place) := do
  try
    return .ok (.file (.ofBytes (← IO.FS.readBinFile path)))
  catch
    -- a directory opens, and only reading it fails
    | .inappropriateType _ 21 _ => return .ok .directory
    | e => return .error (.ofError e)

/-- Saves a picture at a path of the machine. -/
def saveMachine (path : String) (picture : Frame) : IO (Except SaveFault Unit) := do
  let above := (Path.parent? path).getD ""
  try
    if above ≠ "" then IO.FS.createDirAll above
  catch _ => return .error (.directoryUnmade above)
  try
    IO.FS.writeBinFile path (Png.encode picture)
    return .ok ()
  catch _ => return .error .unwritten

/-- The file system of the machine. -/
def machine : FileSystem IO where
  read := readMachine
  save := saveMachine

end Easel.CommandLine

open Easel.CommandLine in
/-- Carries out a command line. -/
def main (arguments : List String) : IO UInt32 := do
  let outcome ← run machine arguments
  IO.print outcome.output
  IO.eprint outcome.remarks
  return UInt32.ofNat outcome.code
