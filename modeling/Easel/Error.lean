import Easel.Geometry.Basic

/-!
# What can go wrong

`Error` has one constructor for each cause, with the values that the cause is
about; `Error.message` holds every wording. `Error.category` sorts the causes
into the groups by which a caller tells them apart, and looks through the line
number that `Error.atLine` puts around the failure of an instruction.

A sum or difference that leaves its range, or a frame that cannot be held, is no
error of the input: it stops the work at once and is never given a line.
`Failure` keeps the two apart.
-/

namespace Easel

/-- The groups of errors that callers tell apart. -/
inductive Category where
  | parse
  | blockNotFound
  | invalidGeometry
  | sizeMismatch
  | notMergeable
  | invalidBlock
  | validation
  | serialization
  | other
deriving DecidableEq, Repr

/-- The words of a category around the words of a cause. -/
def Category.introduce (line? : Option Nat) (detail : String) : Category → String
  | .parse =>
    match line? with
    | some line => s!"parse error at line {line}: {detail}"
    | none => s!"parse error: {detail}"
  | .blockNotFound => s!"block [{detail}] is not found"
  | .invalidGeometry => s!"invalid geometry: {detail}"
  | .sizeMismatch => s!"size mismatch: {detail}"
  | .notMergeable => s!"not mergeable: {detail}"
  | .invalidBlock => s!"invalid block: {detail}"
  | .validation => s!"validation error: {detail}"
  | .serialization => s!"serialization error: {detail}"
  | .other => detail

/-- Why the text of an instruction cannot be read. Positions count the bytes of
the text without its blanks; a character that was found is given by its first
byte. -/
inductive LineFault where
  /-- Another character stands where `want` has to stand. -/
  | expected (want : Char) (position : Nat) (found : Char)
  /-- The line ends where `want` has to stand. -/
  | expectedAtEnd (want : Char)
  /-- No digit stands where a number has to begin. -/
  | expectedNumber (position : Nat) (found : Char)
  /-- The line ends where a number has to begin. -/
  | expectedNumberAtEnd
  /-- A zero is followed by a digit. -/
  | leadingZero (position : Nat)
  /-- The number does not fit 32 bits. -/
  | outOfRange (position : Nat)
  /-- The number does not fit a byte. -/
  | channelTooLarge (position : Nat)
  /-- The line goes on after a complete instruction. -/
  | trailing (position : Nat)
  /-- The line begins with no known word. -/
  | unknownWord (word : String)
deriving DecidableEq, Repr

instance : ToString LineFault where
  toString
    | .expected want position found => s!"expected '{want}' at {position}, found '{found}'"
    | .expectedAtEnd want => s!"expected '{want}', found end of line"
    | .expectedNumber position found => s!"expected a number at {position}, found '{found}'"
    | .expectedNumberAtEnd => "expected a number, found end of line"
    | .leadingZero position => s!"number at {position} has a leading zero"
    | .outOfRange position => s!"number at {position} is out of range"
    | .channelTooLarge position => s!"color channel at {position} exceeds 255"
    | .trailing position => s!"unexpected trailing input at {position}"
    | .unknownWord word => s!"unknown instruction '{word}'"

/-- The causes of failure. -/
inductive Error where
  /-- A line is no instruction; `text` is the line without its blanks. -/
  | malformed (line : Nat) (text : String) (fault : LineFault)
  /-- A line is no instruction, for a reason given in free words. -/
  | unreadable (line : Nat) (reason : String)
  /-- No block has this name. -/
  | blockNotFound (id : String)
  /-- The point of a cut is not in the interior of the block. -/
  | pointOutside (point : Point) (id : String) (rect : Rect)
  /-- The line of a cut does not meet the block. -/
  | lineOutside (position : Nat) (id : String) (rect : Rect)
  /-- Two blocks to be swapped differ in size. -/
  | sizesDiffer (id₁ : String) (size₁ : Point) (id₂ : String) (size₂ : Point)
  /-- Two blocks to be merged do not share a whole edge. -/
  | notAligned (id₁ : String) (rect₁ : Rect) (id₂ : String) (rect₂ : Rect)
  /-- The first corner lies to the right of the second one or above it. -/
  | invertedCorners (bottomLeft topRight : Point)
  /-- The corners enclose no cell. -/
  | noArea (bottomLeft topRight : Point)
  /-- A corner cannot be moved by the vector from `start` to `goal`. -/
  | cornerStuck (corner start goal : Point)
  /-- An anchor cannot be moved by the vector from `start` to `goal`. -/
  | anchorStuck (anchor start goal : Point)
  /-- A canvas has no width or no height. -/
  | emptyCanvas
  /-- A source image has the wrong number of pixels. -/
  | sourceLength (found width height : Nat)
  /-- Preset blocks show a source image, and there is none. -/
  | sourceNotGiven
  /-- Two preset blocks have the same name. -/
  | duplicatePreset (id : String)
  /-- A preset block has neither a colour nor an anchor. -/
  | presetWithoutFill (id : String)
  /-- A block reaches beyond the canvas. -/
  | outsideCanvas (id : String) (rect : Rect) (width height : Nat)
  /-- A source image is not as large as the canvas. -/
  | sourceSize (width height canvasWidth canvasHeight : Nat)
  /-- There is no further number to name a merged block with. -/
  | counterExhausted
  /-- A frame has no width or no height. -/
  | emptyFrame
  /-- A frame has the wrong number of pixels. -/
  | frameLength (found width height : Nat)
  /-- A run of bytes does not end with a whole pixel. -/
  | brokenPixel (length : Nat)
  /-- A leaf shows the source image, and there is none. -/
  | sourceNotLoaded (rect : Rect)
  /-- A leaf shows more than the source image holds. -/
  | outsideSource (rect : Rect) (width height : Nat) (anchor : Point)
  /-- No thread is left to draw with. -/
  | noThreads
  /-- Two frames to be compared differ in size. -/
  | frameSizes (width₁ height₁ width₂ height₂ : Nat)
  /-- The file of an initial configuration does not open. -/
  | configurationClosed (path : String) (reason : String)
  /-- The file of a pixel array does not open. -/
  | pixelsClosed (path : String) (reason : String)
  /-- The text of an initial configuration does not read. -/
  | configurationText
  /-- The text of a pixel array does not read. -/
  | pixelsText
  /-- The file of an image does not read. -/
  | imageUnread (path : String)
  /-- The bytes of an image are no image. -/
  | imageBroken
  /-- The file of an image cannot be written. -/
  | imageUnwritten (path : String)
  /-- A cause in free words. -/
  | worded (category : Category) (text : String)
  /-- The failure of the instruction on a line; lines count from zero. -/
  | atLine (line : Nat) (cause : Error)
deriving DecidableEq, Repr

namespace Error

/-- The group of the innermost cause. -/
def category : Error → Category
  | malformed .. | unreadable .. => .parse
  | blockNotFound _ => .blockNotFound
  | pointOutside .. | lineOutside .. => .invalidGeometry
  | sizesDiffer .. => .sizeMismatch
  | notAligned .. => .notMergeable
  | invertedCorners .. | noArea .. | cornerStuck .. | anchorStuck .. => .invalidBlock
  | emptyCanvas | sourceLength .. | sourceNotGiven | duplicatePreset _ | presetWithoutFill _
  | outsideCanvas .. | sourceSize .. | counterExhausted | emptyFrame | frameLength ..
  | brokenPixel _ | sourceNotLoaded _ | outsideSource .. | noThreads | frameSizes ..
  | configurationClosed .. | pixelsClosed .. => .validation
  | configurationText | pixelsText => .serialization
  | imageUnread _ | imageBroken | imageUnwritten _ => .other
  | worded category _ => category
  | atLine _ cause => cause.category

/-- The line of a text that cannot be read or of an instruction that failed. -/
def line? : Error → Option Nat
  | malformed line .. | unreadable line _ | atLine line _ => some line
  | _ => none

/-- What a cause says after the words of its category. -/
def detail : Error → String
  | malformed _ text fault => s!"cannot parse the instruction [{text}]: {fault}"
  | unreadable _ reason => reason
  | blockNotFound id => id
  | pointOutside point id rect => s!"point {point} is not strictly inside block [{id}] ({rect})"
  | lineOutside position id rect => s!"line {position} is outside block [{id}] ({rect})"
  | sizesDiffer id₁ size₁ id₂ size₂ => s!"[{id₁}] is {size₁} while [{id₂}] is {size₂}"
  | notAligned id₁ rect₁ id₂ rect₂ =>
    s!"[{id₁}] ({rect₁}) and [{id₂}] ({rect₂}) are not adjacent and aligned"
  | invertedCorners bottomLeft topRight => s!"corners are inverted: {bottomLeft} to {topRight}"
  | noArea bottomLeft topRight => s!"block size cannot be 0: {bottomLeft} to {topRight}"
  | cornerStuck corner start goal => s!"cannot move {corner} from {start} to {goal}"
  | anchorStuck anchor start goal =>
    s!"image anchor {anchor} cannot move from {start} to {goal}"
  | emptyCanvas => "canvas width/height must be > 0"
  | sourceLength found width height =>
    s!"source image has {found} pixels, expected {width}x{height} = {width * height}"
  | sourceNotGiven => "preset blocks reference the source image but no sourcePngData was given"
  | duplicatePreset id => s!"duplicate preset block id [{id}]"
  | presetWithoutFill id => s!"preset block [{id}] has neither color nor pngBottomLeftPoint"
  | outsideCanvas id rect width height =>
    s!"block [{id}] ({rect}) lies outside the {width}x{height} canvas"
  | sourceSize width height canvasWidth canvasHeight =>
    s!"source image is {width}x{height}, canvas is {canvasWidth}x{canvasHeight}"
  | counterExhausted => "merge id counter exhausted"
  | emptyFrame => "frame width/height must be > 0"
  | frameLength found width height =>
    s!"frame has {found} pixels, expected {width}x{height} = {width * height}"
  | brokenPixel length => s!"rgba8 buffer length {length} is not a multiple of 4"
  | sourceNotLoaded rect => s!"leaf {rect} references the source image but none is loaded"
  | outsideSource rect width height anchor =>
    s!"leaf {rect} reads outside the {width}x{height} source image from anchor {anchor}"
  | noThreads => "render threading 'threads' must be >= 1 when set"
  | frameSizes width₁ height₁ width₂ height₂ =>
    s!"target is {width₁}x{height₁} but the rendered frame is {width₂}x{height₂}"
  | configurationClosed path reason => s!"open initial configuration '{path}': {reason}"
  | pixelsClosed path reason => s!"open pixel array '{path}': {reason}"
  | configurationText => "parse initial configuration JSON"
  | pixelsText => "parse pixel array JSON"
  | imageUnread path => s!"read image '{path}'"
  | imageBroken => "decode image from memory"
  | imageUnwritten path => s!"write png '{path}'"
  | worded _ text => text
  | atLine _ cause => cause.detail

/-- The text of an error. -/
def message : Error → String
  | atLine line cause => s!"at line {line}: {cause.message}"
  | e => e.category.introduce e.line? e.detail

instance : ToString Error where
  toString := message

end Error

/-- What left its range. -/
inductive Overflow where
  /-- A sum. -/
  | add
  /-- A difference. -/
  | subtract
  /-- The number of bytes that the pixels of a frame take. -/
  | capacity
deriving DecidableEq, Repr

instance : ToString Overflow where
  toString
    | .add => "attempt to add with overflow"
    | .subtract => "attempt to subtract with overflow"
    | .capacity => "capacity overflow"

/-- How work on a canvas can end without a result. -/
inductive Failure where
  /-- The work was refused, and the cause says why. -/
  | refused (cause : Error)
  /-- A number left its range. -/
  | overflow (kind : Overflow)
deriving DecidableEq, Repr

/-- Puts the line of an instruction around the cause of its refusal. -/
def Failure.atLine (line : Nat) : Failure → Failure
  | refused cause => refused (cause.atLine line)
  | overflow kind => overflow kind

/-- Work that can only be refused is work that can fail. -/
def orRefuse {α : Type} : Except Error α → Except Failure α
  | .ok a => .ok a
  | .error e => .error (.refused e)

/-- The sum of two amounts below `2 ^ 64`, which stops the work if it is not. -/
def addAmounts (a b : Nat) : Except Failure Nat :=
  if a + b < 18446744073709551616 then .ok (a + b) else .error (.overflow .add)

end Easel
