import Easel.CommandLine.Arguments
import Easel.CommandLine.FileSystem
import Easel.CommandLine.Path
import Easel.Exchange.Canvas
import Easel.Exchange.Report

/-!
# Carrying out a request

`Request.run` answers a request on any file system: it reads the files, saves the
picture, and says what is printed and how the run ends. A program that is refused
is a result of `judge` and is reported on the standard output; for `render`, and
for all files that do not read, it is an error.

What a file means is decided by a function of the place that was found at its
path, so only the order in which paths are opened depends on the file system.
-/

namespace Easel.CommandLine

/-- Why a request is not carried out. -/
inductive Fault where
  /-- The file of the program does not read. -/
  | programUnread (path : String)
  /-- The source image is not as large as the canvas. -/
  | sourceSize (path : String) (width height canvasWidth canvasHeight : Nat)
  /-- The directory of an output cannot be made. -/
  | directoryUnmade (path : String)
  /-- The work was refused. -/
  | refused (cause : Error)
  /-- A number left its range. -/
  | overflow (kind : Overflow)
deriving DecidableEq, Repr

instance : ToString Fault where
  toString
    | .programUnread path => s!"read program '{path}'"
    | .sourceSize path width height canvasWidth canvasHeight =>
      s!"source image '{path}' is {width}x{height}, canvas is {canvasWidth}x{canvasHeight}"
    | .directoryUnmade path => s!"create output dir '{path}'"
    | .refused cause => cause.message
    | .overflow kind => toString kind

/-- What a run tells. -/
structure Outcome where
  /-- The exit code. -/
  code : Nat := 0
  /-- What is printed as the result. -/
  output : String := ""
  /-- What is told beside the result. -/
  remarks : String := ""

/-- The outcome of a run that ends with a fault. -/
def Outcome.fail (o : Outcome) (fault : Fault) : Outcome :=
  match fault with
  | .overflow kind => { o with code := 101, remarks := s!"{o.remarks}{kind}\n" }
  | fault => { o with code := 1, remarks := s!"{o.remarks}Error: {fault}\n" }

/-- Work on files that only can be refused. -/
def allow {α : Type} : Except Error α → Except Fault α
  | .ok a => .ok a
  | .error e => .error (.refused e)

/-- The faults of work on a canvas. -/
def orFault {α : Type} : Except Failure α → Except Fault α
  | .ok a => .ok a
  | .error (.refused e) => .error (.refused e)
  | .error (.overflow kind) => .error (.overflow kind)

/-- The fault of a picture that is not saved at `path`. -/
def SaveFault.fault (path : String) : SaveFault → Fault
  | directoryUnmade above => .directoryUnmade above
  | unwritten => .refused (.imageUnwritten path)

/-- The text of the program at a path. -/
def programAt (path : String) : Except Obstacle Place → Except Fault String
  | .ok (.file { text := some text, .. }) => .ok text
  | _ => .error (.programUnread path)

/-- The layout at a path. A directory opens, and then there is no text in it. -/
def layoutAt (path : String) : Except Obstacle Place → Except Error Layout
  | .ok (.file { text := some text, .. }) => Layout.ofText text
  | .ok _ => .error .configurationText
  | .error o => .error (.configurationClosed path (toString o))

/-- The picture at a path. -/
def pictureAt (path : String) : Except Obstacle Place → Except Error Frame
  | .ok (.file { picture := some picture, .. }) => Frame.ofPicture picture
  | .ok (.file _) => .error .imageBroken
  | _ => .error (.imageUnread path)

/-- The pixels at a path. -/
def pixelsAt (path : String) (size : Point) : Except Obstacle Place → Except Error Frame
  | .ok (.file { text := some text, .. }) => Frame.ofText size text
  | .ok _ => .error .pixelsText
  | .error o => .error (.pixelsClosed path (toString o))

/-- The target at a path: pixels if the name says so, else a picture. -/
def targetAt (path : String) (size : Point) (place : Except Obstacle Place) :
    Except Error Frame :=
  if Path.HasExtension "json" path then pixelsAt path size place else pictureAt path place

/-- The size of the canvas that a program runs on. -/
def canvasSize : Option Layout → Point
  | some layout => layout.size
  | none => Sheet.standard.size

/-- A layout with the picture of a file as its source image. -/
def withSource (path : String) (layout : Option Layout) (picture : Frame) :
    Except Fault Layout :=
  let layout := layout.getD { size := canvasSize none }
  if picture.width = layout.size.x ∧ picture.height = layout.size.y then
    .ok { layout with sourceName := some path, sourcePixels := some picture.pixels }
  else
    .error (.sourceSize path picture.width picture.height layout.size.x layout.size.y)

/-- The name and the version that the program gives. -/
def banner : String := "vinci 0.1.0"

/-- What is told to who asks for help. -/
def usage : String := "usage: judge|render --program FILE [--initial FILE] [--source FILE] ..."

section Files

variable {m : Type → Type} [Monad m] (fs : FileSystem m)

/-- Reads a program and the layout of its canvas. -/
def readFiles (files : CanvasFiles) : ExceptT Fault m (String × Option Layout) := do
  let text ← programAt files.program (← fs.read files.program)
  let layout ← files.initial.mapM fun path => do allow (layoutAt path (← fs.read path))
  match files.source with
  | some path =>
    let picture ← allow (pictureAt path (← fs.read path))
    return (text, some (← withSource path layout picture))
  | none => return (text, layout)

/-- What is found out of a program that is to be judged. -/
def judgeFiles (options : JudgeOptions) : ExceptT Fault m (Except Error Verdict) := do
  let (text, layout) ← readFiles fs options.files
  -- a target that does not read is a fault even where the program would be refused
  let target ← allow (targetAt options.target (canvasSize layout) (← fs.read options.target))
  match Verdict.ofText text layout target options.problem
    { parallel := options.parallel, threads := options.threads } with
  | .ok verdict => return .ok verdict
  | .error (.refused cause) => return .error cause
  | .error (.overflow kind) => throw (.overflow kind)

/-- What a program that is to be rendered leaves behind, and its picture. -/
def renderFiles (options : RenderOptions) : ExceptT Fault m (Run × Frame) := do
  let (text, layout) ← readFiles fs options.files
  let run ← orFault (Run.ofText text layout (.ofProblem options.problem))
  let picture ← orFault (run.canvas.draw {})
  return (run, picture)

/-- Saves a picture and tells of it. -/
def savePicture (told : Outcome) (path : String) (picture : Frame) : m Outcome := do
  match ← fs.save path picture with
  | .ok () => return { told with remarks := s!"{told.remarks}wrote {path}\n" }
  | .error fault => return told.fail (fault.fault path)

/-- The answer to a request. -/
def Request.run : Request → m Outcome
  | .version => return { output := s!"{banner}\n" }
  | .help => return { output := s!"{usage}\n" }
  | .judge options => do
    match ← judgeFiles fs options with
    | .error fault => return Outcome.fail {} fault
    | .ok result =>
      let told : Outcome := { output := s!"{(Report.ofResult result).text}\n" }
      match result, options.out with
      | .ok verdict, some path => savePicture fs told path verdict.frame
      | _, _ => return told
  | .render options => do
    match ← renderFiles fs options with
    | .error fault => return Outcome.fail {} fault
    | .ok (run, picture) =>
      let told ← savePicture fs {} options.out picture
      if told.code = 0 then
        return { told with
          remarks := s!"{told.remarks}instruction cost: {run.cost}\n"
          output := if options.dumpCanvas then s!"{run.canvas.toJson.pretty}\n" else "" }
      else return told

/-- The answer to a command line. -/
def run (arguments : List String) : m Outcome :=
  match Request.ofArguments arguments with
  | .ok request => request.run fs
  | .error cause => return { code := 2, remarks := s!"error: {cause}\n" }

end Files

end Easel.CommandLine
