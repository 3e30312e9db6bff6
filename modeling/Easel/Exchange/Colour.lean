import Easel.Colour
import Easel.Json.Record

/-!
# Points, rectangles and colours in JSON

A point is an array of two numbers and a colour one of four; both are read from
exactly that many.
-/

namespace Easel

/-- The point as `[x,y]`. -/
def Point.toJson (p : Point) : Json :=
  .array [.natural p.x, .natural p.y]

/-- The point of an array of two coordinates. -/
def Point.ofJson? : Json → Option Point
  | .array [.natural x, .natural y] => ofNat? x y
  | _ => none

/-- The rectangle with its corners under their names. -/
def Rect.jsonFields (r : Rect) : List (String × Json) :=
  [("bottomLeft", r.bottomLeft.toJson), ("topRight", r.topRight.toJson)]

/-- The rectangle as an object of its corners. -/
def Rect.toJson (r : Rect) : Json :=
  .object r.jsonFields

/-- The colour as `[r,g,b,a]`. -/
def Rgba.toJson (c : Rgba) : Json :=
  .array [.natural c.r.toNat, .natural c.g.toNat, .natural c.b.toNat, .natural c.a.toNat]

/-- The colour of an array of four numbers below 256. -/
def Rgba.ofJson? : Json → Option Rgba
  | .array [.natural r, .natural g, .natural b, .natural a] =>
    if r < 256 ∧ g < 256 ∧ b < 256 ∧ a < 256 then
      some ⟨UInt8.ofNat r, UInt8.ofNat g, UInt8.ofNat b, UInt8.ofNat a⟩
    else none
  | _ => none

/-- The fill under the name of its kind. -/
def Fill.toJson : Fill → Json
  | solid colour => .object [("rgba", colour.toJson)]
  | image anchor => .object [("image_ref", .object [("anchor", anchor.toJson)])]

end Easel
