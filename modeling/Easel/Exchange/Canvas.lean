import Easel.Canvas
import Easel.Exchange.Colour

/-!
# Blocks and canvases in JSON

These forms are only written. The blocks of a canvas are the fields of an
object, in paint order; the source image is left out.
-/

namespace Easel

/-- The leaf with its corners and its fill. -/
def Leaf.jsonFields (leaf : Leaf) : List (String × Json) :=
  leaf.rect.jsonFields ++ [("color", leaf.fill.toJson)]

/-- The leaf as an object. -/
def Leaf.toJson (leaf : Leaf) : Json :=
  .object leaf.jsonFields

/-- The block as an object that begins with its kind. -/
def Block.toJson : Block → Json
  | simple leaf => .object (("type", .string "simple") :: leaf.jsonFields)
  | complex rect children =>
    .object (("type", .string "complex") :: rect.jsonFields
      ++ [("children", .array (children.map Leaf.toJson))])

/-- The canvas with its blocks in paint order. -/
def Canvas.toJson (c : Canvas) : Json :=
  .object
    [ ("width", .natural c.width),
      ("height", .natural c.height),
      ("background", c.background.toJson),
      ("blocks", .object (c.blocks.entries.map fun (id, block) => (id, block.toJson))) ]

end Easel
