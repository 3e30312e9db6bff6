import Easel.Cost
import Easel.Frame

/-!
# How far two pictures are apart

The distance of two pixels is Euclidean over the four channels. The distance of
two frames is the sum of the distances of their pixels, row by row from the top,
weighted and rounded to a whole number; the sum is in binary floating point, so
its order is part of the result.
-/

namespace Easel

/-- The weight of the summed distance. -/
def similarityWeight : Float := 0.005

/-- The square of the difference of two channels. -/
def channelDistance (x y : UInt8) : Float :=
  -- exact, since channels are whole numbers below 256
  let d := x.toFloat - y.toFloat
  d * d

/-- The Euclidean distance of two colours. -/
def Rgba.distance (c d : Rgba) : Float :=
  (channelDistance c.r d.r + channelDistance c.g d.g + channelDistance c.b d.b
    + channelDistance c.a d.a).sqrt

/-- The sum of the distances of pixels in the same places. -/
def Picture.distance (p q : Picture) : Float :=
  (p.pixels.zip q.pixels).foldl (fun sum (c, d) => sum + c.distance d) 0

/-- The weighted distance of two frames of the same size. -/
def Frame.similarity (target rendered : Frame) : Except Error Nat :=
  if target.width = rendered.width ∧ target.height = rendered.height then
    .ok (nearest (target.toPicture.distance rendered.toPicture * similarityWeight)).toNat
  else
    .error (.frameSizes target.width target.height rendered.width rendered.height)

end Easel
