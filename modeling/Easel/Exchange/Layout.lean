import Easel.Exchange.Colour
import Easel.Json.Reader
import Easel.Layout
import Easel.Program.Basic
import Easel.Cost

/-!
# Layouts in JSON

What is written can be read again. Fields that are absent are not written, and a
layout without blocks still has the field for them. A reader does not tell a
missing colour, anchor, remark or picture from one that is null; a list of
blocks that is null is refused.
-/

namespace Easel

/-- The size of a width and a height. -/
def Point.ofExtent? : Json → Json → Option Point
  | .natural width, .natural height => ofNat? width height
  | _, _ => none

/-- A field that is written only if it has a value. -/
def Json.optionalField {α : Type} (name : String) (write : α → Json) :
    Option α → List (String × Json)
  | some a => [(name, write a)]
  | none => []

/-- The preset block as an object. -/
def Preset.toJson (p : Preset) : Json :=
  .object
    ([ ("blockId", .string p.id),
       ("bottomLeft", p.bottomLeft.toJson),
       ("topRight", p.topRight.toJson) ]
      ++ Json.optionalField "color" Rgba.toJson p.colour
      ++ Json.optionalField "pngBottomLeftPoint" Point.toJson p.anchor)

/-- The preset block of a record. -/
def Preset.ofJson? (j : Json) : Option Preset := do
  match ← j.record? ["blockId", "bottomLeft", "topRight", "color", "pngBottomLeftPoint"] with
  | [some id, some bottomLeft, some topRight, colour, anchor] =>
    let id ← id.string?
    let bottomLeft ← Point.ofJson? bottomLeft
    let topRight ← Point.ofJson? topRight
    let colour ← Json.optional? Rgba.ofJson? colour
    let anchor ← Json.optional? Point.ofJson? anchor
    return { id, bottomLeft, topRight, colour, anchor }
  | _ => none

/-- The pixels as an array of colours. -/
def Picture.pixelsToJson (pixels : Array Rgba) : Json :=
  .array (pixels.toList.map Rgba.toJson)

/-- The pixels of an array of colours. -/
def Picture.pixelsOfJson? (j : Json) : Option (Array Rgba) := do
  let items ← j.array?
  return (← items.mapM Rgba.ofJson?).toArray

/-- The layout as an object. -/
def Layout.toJson (l : Layout) : Json :=
  .object
    ([ ("width", .natural l.size.x),
       ("height", .natural l.size.y),
       ("blocks", .array (l.presets.map Preset.toJson)) ]
      ++ Json.optionalField "sourcePngJSON" Json.string l.sourceName
      ++ Json.optionalField "sourcePngData" Picture.pixelsToJson l.sourcePixels)

/-- The preset blocks of a field, none of them if it is missing. -/
def Layout.presetsOfJson? : Option Json → Option (List Preset)
  | none => some []
  | some j => do (← j.array?).mapM Preset.ofJson?

/-- The layout of a record. -/
def Layout.ofJson? (j : Json) : Option Layout := do
  match ← j.record? ["width", "height", "blocks", "sourcePngJSON", "sourcePngData"] with
  | [some width, some height, presets, sourceName, sourcePixels] =>
    let size ← Point.ofExtent? width height
    let presets ← presetsOfJson? presets
    let sourceName ← Json.optional? Json.string? sourceName
    let sourcePixels ← Json.optional? Picture.pixelsOfJson? sourcePixels
    return { size, presets, sourceName, sourcePixels }
  | _ => none

/-- The sheet as an object. -/
def Sheet.toJson (s : Sheet) : Json :=
  .object
    [ ("width", .natural s.size.x),
      ("height", .natural s.size.y),
      ("background", s.background.toJson) ]

/-- The sheet of a record. -/
def Sheet.ofJson? (j : Json) : Option Sheet := do
  match ← j.record? ["width", "height", "background"] with
  | [some width, some height, some background] =>
    let size ← Point.ofExtent? width height
    let background ← Rgba.ofJson? background
    return { size, background }
  | _ => none

/-- The name of a table of base prices. -/
def CostTable.name : CostTable → String
  | legacy => "legacy"
  | revised => "revised"

/-- The table with a name. -/
def CostTable.ofName? : String → Option CostTable
  | "legacy" => some legacy
  | "revised" => some revised
  | _ => none

/-- The table as its name. -/
def CostTable.toJson (t : CostTable) : Json :=
  .string t.name

/-- The table of a name, or of an object in which null stands under the name. -/
def CostTable.ofJson? : Json → Option CostTable
  | .string s => ofName? s
  | .object [(s, .null)] => ofName? s
  | _ => none

/-- The layout of a text. -/
def Layout.ofText (text : String) : Except Error Layout :=
  match (Json.read? text).bind ofJson? with
  | some l => .ok l
  | none => .error .configurationText

end Easel
