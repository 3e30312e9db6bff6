import Easel.Frame
import Easel.PictureFile

/-!
# What the command line asks of a file system

A file matters through two readings: its text, if its bytes are text, and its
picture, if they encode one. `FileSystem` is all that a run needs: to open a
path, and to save a picture at one. So a run is described once and can be carried
out on a disk and on directories that are only values.
-/

namespace Easel.CommandLine

/-- A file in the two ways in which it can be read. -/
structure File where
  text : Option String := none
  picture : Option Picture := none

/-- The file with the given bytes. -/
def File.ofBytes (bytes : ByteArray) : File where
  text := String.fromUTF8? bytes
  picture := PictureFile.decode? bytes

/-- The file with the given text. -/
def File.ofText (text : String) : File where
  text := some text
  picture := PictureFile.decode? text.toUTF8

/-- The file that a frame is saved as. -/
def File.ofFrame (frame : Frame) : File where
  picture := some frame.toPicture

/-- What is found at a path that opens. -/
inductive Place where
  | file (file : File)
  | directory

/-- Why a path does not lead to a file. -/
inductive Obstacle where
  /-- A name is not there. -/
  | absent
  /-- A name in the middle of the path is no directory. -/
  | notDirectory
  /-- A name or the whole path is too long. -/
  | tooLong
  /-- Something is there already. -/
  | occupied
  /-- A directory stands where a file is wanted. -/
  | directory
  /-- The file is not for this user. -/
  | forbidden
deriving DecidableEq, Repr

instance : ToString Obstacle where
  toString
    | .absent => "No such file or directory (os error 2)"
    | .notDirectory => "Not a directory (os error 20)"
    | .tooLong => "File name too long (os error 36)"
    | .occupied => "File exists (os error 17)"
    | .directory => "Is a directory (os error 21)"
    | .forbidden => "Permission denied (os error 13)"

/-- Why a picture is not saved. -/
inductive SaveFault where
  /-- The directory at `path` cannot be made. -/
  | directoryUnmade (path : String)
  /-- The file itself cannot be written. -/
  | unwritten
deriving DecidableEq, Repr

/-- How paths are opened and pictures are saved. -/
structure FileSystem (m : Type → Type) where
  /-- Opens what stands at a path. -/
  read : String → m (Except Obstacle Place)
  /-- Saves a picture at a path and makes the directories above it. -/
  save : String → Frame → m (Except SaveFault Unit)

end Easel.CommandLine
