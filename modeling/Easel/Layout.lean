import Easel.Canvas

/-!
# Layouts: how a canvas begins

A layout gives the size of a canvas, the blocks it begins with and the pixels of
its source image. `Canvas.ofLayout` builds the canvas that a layout describes. A
layout without blocks gives one white block that covers everything.

The checks come in a fixed order: the size, the pixels, then block after block,
and for each block its name, its fill, its corners and its place.
-/

namespace Easel

/-- A block that a canvas begins with. -/
structure Preset where
  id : String
  bottomLeft : Point
  topRight : Point
  /-- The colour, which goes before an anchor. -/
  colour : Option Rgba := none
  /-- The anchor in the source image. -/
  anchor : Option Point := none
deriving DecidableEq, Repr

/-- What a preset block shows. -/
def Preset.fill (p : Preset) : Except Error Fill :=
  match p.colour, p.anchor with
  | some colour, _ => .ok (.solid colour)
  | none, some anchor => .ok (.image anchor)
  | none, none => .error (.presetWithoutFill p.id)

/-- The preset shows the source image. -/
def Preset.ShowsSource (p : Preset) : Prop :=
  p.colour = none ∧ p.anchor.isSome

instance (p : Preset) : Decidable p.ShowsSource :=
  inferInstanceAs (Decidable (_ ∧ _))

/-- How a canvas begins. -/
structure Layout where
  /-- Width and height. -/
  size : Point
  presets : List Preset := []
  /-- A remark on where the source image comes from. -/
  sourceName : Option String := none
  /-- The pixels of the source image, the top row first. -/
  sourcePixels : Option (Array Rgba) := none
deriving DecidableEq, Repr

namespace Canvas

/-- The canvas with a preset block as the last one. -/
def addPreset (c : Canvas) (p : Preset) : Except Error Canvas :=
  if p.id ∈ c.ids then
    .error (.duplicatePreset p.id)
  else do
    let fill ← p.fill
    let leaf ← Leaf.ofCorners p.bottomLeft p.topRight fill
    c.insert p.id (.simple leaf)

/-- The canvas without blocks that has the source image of a layout. -/
def ofSource (c : Canvas) (layout : Layout) : Except Error Canvas :=
  match layout.sourcePixels with
  | some pixels => do
    let picture ← Picture.ofPixels layout.size pixels
    c.setSource picture
  | none =>
    -- a preset without any fill passes here and is refused in its turn
    if layout.presets.any (·.ShowsSource) then .error .sourceNotGiven else .ok c

/-- The canvas that a layout describes. -/
def ofLayout (layout : Layout) : Except Error Canvas := do
  match layout.presets with
  | [] => (← blank layout.size .white).ofSource layout
  | presets => presets.foldlM addPreset (← (← bare layout.size .white).ofSource layout)

end Canvas

end Easel
