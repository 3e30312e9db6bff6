import Easel.Nearest

/-!
# Channels between nothing and full strength

Some formats give the strength of a channel as a float, where one is full strength.
-/

namespace Easel.PictureFile

/-- Eight bits of a channel. What is stronger than full strength counts as full
strength, and so does what is not a number. -/
def ofUnit (x : Float32) : UInt8 :=
  if x < 1 then
    if 0 < x then (nearest (x * 255).toFloat).toUInt8 else 0
  else 255

end Easel.PictureFile
