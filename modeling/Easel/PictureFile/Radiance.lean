import Easel.PictureFile.Reading
import Easel.Text.Blank
import Easel.Text.Number

/-!
# Radiance pictures

A Radiance picture has a header of lines, an empty line, a line with the height
and the width, and then rows of pixels. A pixel is three bytes and an exponent
that they share; light of full strength is one, and what is brighter counts as
one. Rows are packed in either of two ways, which their first pixel tells apart.
-/

namespace Easel.PictureFile.Radiance

/-! ## Header -/

/-- The text of a line. -/
def lineText (line : List UInt8) : List Char :=
  ((String.fromUTF8? ⟨line.toArray⟩).getD "").toList

/-- The words of a text. -/
def words (cs : List Char) : List (List Char) :=
  (cs.splitOnP fun c => Text.IsBlank c).filter (· ≠ [])

/-- The text is a decimal number, with a point and an exponent or without, or names
a number that is not finite. -/
def IsDecimal (cs : List Char) : Prop :=
  let digits (cs : List Char) : Bool := cs.all Char.isDigit
  let unsigned (cs : List Char) : List Char :=
    match cs with
    | '+' :: cs | '-' :: cs => cs
    | cs => cs
  let cs := unsigned cs
  let mantissa := cs.takeWhile fun c => c ≠ 'e' ∧ c ≠ 'E'
  let exponent := unsigned ((cs.dropWhile fun c => c ≠ 'e' ∧ c ≠ 'E').drop 1)
  let plain := mantissa.filter (· ≠ '.')
  (["inf", "infinity", "nan"].map String.toList).contains (cs.map Char.toLower) ∨
    (plain ≠ [] ∧ digits plain ∧ mantissa.count '.' ≤ 1 ∧ digits exponent ∧
      (exponent ≠ [] ∨ mantissa.length = cs.length))

instance : DecidablePred IsDecimal := fun cs => by
  unfold IsDecimal; infer_instance

/-- A line of the header does not prevent that the picture is read. Only what is
said of the format, the exposure, the shape of pixels and the colours matters, and
a line that ends with its first equals sign says nothing. -/
def Admits (line : List Char) : Prop :=
  let name := String.ofList (Text.trim (line.takeWhile (· ≠ '=')))
  let value := (line.dropWhile (· ≠ '=')).drop 1
  if value = [] then True
  else if name = "FORMAT" then Text.trim value = "32-bit_rle_rgbe".toList
  else if name = "EXPOSURE" ∨ name = "PIXASPECT" then IsDecimal (Text.trim value)
  else if name = "COLORCORR" then (words value).length = 3 ∧ ∀ w ∈ words value, IsDecimal w
  else True

instance : DecidablePred Admits := fun line => by
  unfold Admits; infer_instance

/-- Takes lines up to an empty one, of which `fuel` are left. -/
def headerFrom : Nat → Reading Unit
  | 0 => failure
  | fuel + 1 => do
    let line ← line
    if line = [] then return ()
    else if line.head? = some 35 ∨ Admits (lineText line) then headerFrom fuel
    else failure

/-- Takes the line with the height and the width. -/
def size : Reading (Nat × Nat) := do
  match (words (lineText (← line))).map String.ofList with
  | ["-Y", height, "+X", width] =>
    return (← Number.ofText? 4294967296 width, ← Number.ofText? 4294967296 height)
  | _ => failure

/-! ## Rows -/

/-- A pixel of a row. -/
structure Light where
  r : UInt8
  g : UInt8
  b : UInt8
  exponent : UInt8
deriving DecidableEq

/-- Eight bits of a channel, a half rounded up. -/
def level (n exponent : UInt8) : UInt8 :=
  UInt8.ofNat (min 255
    ((510 * n.toNat * Nat.pow 2 exponent.toNat + Nat.pow 2 136) / Nat.pow 2 137))

/-- The colour of a pixel. -/
def Light.colour (p : Light) : Rgba :=
  ⟨level p.r p.exponent, level p.g p.exponent, level p.b p.exponent, 255⟩

/-- Takes a pixel. -/
def light : Reading Light := do
  return { r := ← byte, g := ← byte, b := ← byte, exponent := ← byte }

/-- The pixel says how often the one before is repeated. -/
def Light.Repeats (p : Light) : Prop :=
  p.r = 1 ∧ p.g = 1 ∧ p.b = 1

instance (p : Light) : Decidable p.Repeats :=
  inferInstanceAs (Decidable (_ ∧ _))

/-- Takes the pixels of a row up to `width`. Repeats that follow each other are the
digits of one number, the lowest one first. At most `fuel` pixels are taken. -/
def wholePixels (width : Nat) : Nat → Light → Nat → Array Light → Reading (Array Light)
  | 0, _, _, _ => failure
  | fuel + 1, last, weight, done => do
    if width ≤ done.size then return done
    let p ← light
    if p.Repeats then
      let n := p.exponent.toNat * weight
      if width < done.size + n then failure
      else wholePixels width fuel last (weight * 256) (done ++ Array.replicate n last)
    else wholePixels width fuel p 1 (done.push p)

/-- Takes one channel of a row up to `width`, in runs of which `fuel` are left. -/
def channel (width : Nat) : Nat → Array UInt8 → Reading (Array UInt8)
  | 0, _ => failure
  | fuel + 1, done => do
    if width ≤ done.size then return done
    let n := (← byte).toNat
    let run ← if n ≤ 128 then bytes n else List.replicate (n - 128) <$> byte
    if width < done.size + run.length then failure
    else channel width fuel (done ++ run)

/-- Takes a row. -/
def row (width : Nat) : Reading (Array Rgba) := do
  let fuel := (← get).length
  let p ← light
  if p.r = 2 ∧ p.g = 2 ∧ p.b < 128 then
    let r ← channel width fuel #[]
    let g ← channel width fuel #[]
    let b ← channel width fuel #[]
    let exponent ← channel width fuel #[]
    return Array.ofFn fun i : Fin width =>
      (Light.mk (r.getD i 0) (g.getD i 0) (b.getD i 0) (exponent.getD i 0)).colour
  else if p.Repeats then failure
  else return (← wholePixels width fuel p 1 #[p]).map Light.colour

/-- Takes a picture. -/
def read : Reading Picture := do
  if textOf (← bytes 10) ≠ "#?RADIANCE" then failure
  let _ ← line
  headerFrom (← get).length
  let (width, height) ← size
  checkSize width height 12
  if width = 0 then picture width height #[]
  else
    let rows ← repeated (row width) height #[]
    picture width height rows.flatten

end Easel.PictureFile.Radiance
