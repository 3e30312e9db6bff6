import Easel.Text.Number

/-!
# Command line arguments

The first word names a command, and the options of the command follow in any
order. An option is given as `--name value` or `--name=value`; in the first form
a value does not begin with a hyphen, unless it is nothing else. No option is
given twice. Arguments are read from left to right, and the first one that asks
for help or does not fit decides.
-/

namespace Easel.CommandLine

/-- Where a program and its canvas are read from. -/
structure CanvasFiles where
  program : String
  initial : Option String
  source : Option String
deriving DecidableEq, Repr

/-- What to judge. -/
structure JudgeOptions where
  files : CanvasFiles
  target : String
  problem : Nat
  out : Option String
  parallel : Bool
  threads : Option Nat
deriving DecidableEq, Repr

/-- What to render. -/
structure RenderOptions where
  files : CanvasFiles
  out : String
  problem : Nat
  dumpCanvas : Bool
deriving DecidableEq, Repr

/-- What is asked for. -/
inductive Request where
  | judge (options : JudgeOptions)
  | render (options : RenderOptions)
  | version
  | help
deriving DecidableEq, Repr

/-- Why arguments make no request. -/
inductive UsageError where
  /-- The command or option is not known here. -/
  | unexpected (argument : String)
  /-- The option has no value. -/
  | valueMissing (option : String)
  /-- The option has a value and takes none. -/
  | valueNotTaken (option : String)
  /-- The value is not of the kind that the option takes. -/
  | invalidValue (option value : String)
  /-- The option is given twice. -/
  | repeated (option : String)
  /-- The option is needed and is not given. -/
  | optionMissing (option : String)
  /-- No command is given. -/
  | commandMissing
deriving DecidableEq, Repr

instance : ToString UsageError where
  toString
    | .unexpected argument => s!"unexpected argument '{argument}'"
    | .valueMissing option => s!"a value is required for '--{option}'"
    | .valueNotTaken option => s!"no value is allowed for '--{option}'"
    | .invalidValue option value => s!"invalid value '{value}' for '--{option}'"
    | .repeated option => s!"the option '--{option}' is given twice"
    | .optionMissing option => s!"the option '--{option}' is required"
    | .commandMissing => "a command is required"

/-- What an option takes. -/
inductive Taken where
  /-- No value. -/
  | nothing
  /-- The path of a file. -/
  | path
  /-- A whole number below `limit`. Zero may have a minus sign where `signed`
  says so. -/
  | whole (limit : Nat) (signed : Bool)
deriving DecidableEq, Repr

/-- The value of a number, if the option takes it. -/
def wholeOf? (limit : Nat) (signed : Bool) (value : String) : Option Nat :=
  match value.toList with
  | '-' :: digits => if signed && Number.ofDigits? digits = some 0 then some 0 else none
  | _ => Number.ofText? limit value

/-- The value is one that the option takes. -/
def Taken.accepts (value : String) : Taken → Bool
  | nothing => false
  | path => !value.isEmpty
  | whole limit signed => (wholeOf? limit signed value).isSome

/-- The options of a command. -/
abbrev Options := List (String × Taken)

/-- The options that have been given, with their values. -/
abbrev Given := List (String × String)

/-- Why the reading of arguments ends early. -/
inductive Stop where
  | help
  | version
  | refused (cause : UsageError)
deriving DecidableEq, Repr

/-- What an argument looks like. -/
inductive Shape where
  /-- Two hyphens alone: no options follow. -/
  | separator
  /-- An option, with its value if that is in the same argument. -/
  | long (name : String) (value : Option String)
  /-- A hyphen with letters. -/
  | short (letters : List Char)
  /-- Anything else. -/
  | plain

/-- The shape of an argument. -/
def shape (argument : String) : Shape :=
  match argument.toList with
  | ['-', '-'] => .separator
  | '-' :: '-' :: cs =>
    .long (String.ofList (cs.takeWhile (· ≠ '=')))
      (match cs.dropWhile (· ≠ '=') with
        | _ :: value => some (String.ofList value)
        | [] => none)
  | '-' :: c :: cs => .short (c :: cs)
  | _ => .plain

/-- Adds an option to those that have been given. -/
def give (given : Given) (name : String) (taken : Taken) (value : String) :
    Except Stop Given :=
  if taken ≠ .nothing ∧ ¬ taken.accepts value then .error (.refused (.invalidValue name value))
  else if (given.lookup name).isSome then .error (.refused (.repeated name))
  else .ok (given ++ [(name, value)])

/-- Reads options up to the first argument that is none, which is given back
with all that follow it. The outermost options know a version. -/
def readOptions (outermost : Bool) (options : Options) (given : Given) :
    List String → Except Stop (Given × List String)
  | [] => .ok (given, [])
  | argument :: rest =>
    match shape argument with
    | .separator =>
      match rest with
      | [] => .ok (given, [])
      | next :: _ => .error (.refused (.unexpected next))
    | .short letters =>
      if letters.head? = some 'h' then .error .help
      else if outermost && letters.head? = some 'V' then .error .version
      else .error (.refused (.unexpected argument))
    | .long name value =>
      match options.lookup name with
      | some .nothing =>
        if value.isSome then .error (.refused (.valueNotTaken name))
        else do readOptions outermost options (← give given name .nothing "") rest
      | some taken =>
        match value with
        | some value => do readOptions outermost options (← give given name taken value) rest
        | none =>
          match rest with
          | [] => .error (.refused (.valueMissing name))
          | next :: rest =>
            match shape next with
            | .plain => do readOptions outermost options (← give given name taken next) rest
            | _ => .error (.refused (.valueMissing name))
      | none =>
        if value.isSome then .error (.refused (.unexpected argument))
        else if name = "help" then .error .help
        else if outermost && name = "version" then .error .version
        else .error (.refused (.unexpected argument))
    | .plain => .ok (given, argument :: rest)

/-- The value of an option that has to be given. -/
def required (given : Given) (name : String) : Except Stop String :=
  match given.lookup name with
  | some value => .ok value
  | none => .error (.refused (.optionMissing name))

/-- The numbers of problems are below this. -/
def problemLimit : Nat := 4294967296

/-- The numbers of threads are below this. -/
def threadLimit : Nat := 18446744073709551616

/-- The options that every command has. -/
def commonOptions : Options :=
  [("verbose", .nothing), ("program", .path), ("initial", .path), ("source", .path),
    ("problem-id", .whole problemLimit true), ("out", .path)]

/-- The options of `judge`. -/
def judgeOptions : Options :=
  commonOptions ++
    [("target", .path), ("parallel", .nothing), ("threads", .whole threadLimit false)]

/-- The options of `render`. -/
def renderOptions : Options :=
  commonOptions ++ [("dump-canvas", .nothing)]

/-- Reads the options of a command, after which nothing may follow. -/
def readAll (options : Options) (arguments : List String) : Except Stop Given := do
  match ← readOptions false options [] arguments with
  | (given, []) => return given
  | (_, argument :: _) => .error (.refused (.unexpected argument))

/-- The files of a program and its canvas. -/
def canvasFiles (given : Given) : Except Stop CanvasFiles := do
  let program ← required given "program"
  return { program, initial := given.lookup "initial", source := given.lookup "source" }

/-- Reads the arguments of `judge`. -/
def readJudge (arguments : List String) : Except Stop Request := do
  let given ← readAll judgeOptions arguments
  let files ← canvasFiles given
  let target ← required given "target"
  let problem ← required given "problem-id"
  return .judge {
    files
    target
    problem := (wholeOf? problemLimit true problem).getD 0
    out := given.lookup "out"
    parallel := (given.lookup "parallel").isSome
    threads := (given.lookup "threads").bind (wholeOf? threadLimit false) }

/-- Reads the arguments of `render`. -/
def readRender (arguments : List String) : Except Stop Request := do
  let given ← readAll renderOptions arguments
  let files ← canvasFiles given
  let out ← required given "out"
  return .render {
    files
    out
    problem := ((given.lookup "problem-id").bind (wholeOf? problemLimit true)).getD 0
    dumpCanvas := (given.lookup "dump-canvas").isSome }

/-- Reads a command with its arguments. -/
def readCommand : List String → Except Stop Request
  | [] => .error (.refused .commandMissing)
  | "judge" :: arguments => readJudge arguments
  | "render" :: arguments => readRender arguments
  | ["help"] | ["help", "judge"] | ["help", "render"] | ["help", "help"] => .error .help
  | argument :: _ => .error (.refused (.unexpected argument))

/-- What a command line asks for. -/
def Request.ofArguments (arguments : List String) : Except UsageError Request :=
  let read : Except Stop Request := do
    let (_, arguments) ← readOptions true [("verbose", .nothing)] [] arguments
    readCommand arguments
  match read with
  | .ok request => .ok request
  | .error .help => .ok .help
  | .error .version => .ok .version
  | .error (.refused cause) => .error cause

end Easel.CommandLine
