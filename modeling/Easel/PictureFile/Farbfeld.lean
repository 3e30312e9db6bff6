import Easel.PictureFile.Reading

/-!
# Farbfeld

A file of this format is its name, the width and the height, and then four
channels of sixteen bits for every pixel. Nothing is packed.
-/

namespace Easel.PictureFile.Farbfeld

/-- Takes one channel. -/
def channel : Reading UInt8 := do
  return narrow (← highFirst 2)

/-- Takes a pixel. -/
def pixel : Reading Rgba := do
  return { r := ← channel, g := ← channel, b := ← channel, a := ← channel }

/-- Takes a picture. -/
def read : Reading Picture := do
  if textOf (← bytes 8) ≠ "farbfeld" then failure
  let width ← highFirst 4
  let height ← highFirst 4
  checkSize width height 8
  picturePixels width height pixel

end Easel.PictureFile.Farbfeld
