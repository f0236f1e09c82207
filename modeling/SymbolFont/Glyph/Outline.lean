/-
# Outlines

A glyph has contours of points, and where it has an outline also a bounding box.  The
geometry is stated for coordinates of any kind with the four operations, since it makes
sense for rationals as well as for doubles.
-/

import SymbolFont.Glyph.Class
import SymbolFont.Markup.Node

namespace SymbolFont

open Markup

/-- A bounding box. -/
structure BBox (α : Type) where
  xMin : α
  yMin : α
  xMax : α
  yMax : α
  deriving BEq, DecidableEq, Repr

/-- A point of a contour. -/
structure Point (α : Type) where
  x : α
  y : α
  /-- Is the point on the curve, or a control point? -/
  onCurve : Bool
  /-- Attributes of the point that have no meaning here. -/
  extra : Attributes := []
  /-- The flags that the point was read with; the lowest one is superseded by `onCurve`. -/
  flags : Option UInt32 := none
  deriving BEq, DecidableEq, Repr

/-- The points of a contour in their order. -/
abbrev Contour (α : Type) := List (Point α)

/-- A glyph. -/
structure Glyph (α : Type) where
  name : String
  bounds : Option (BBox α) := none
  contours : List (Contour α) := []
  /-- The nodes inside the glyph that are no contours. -/
  other : List Node := []
  deriving BEq, DecidableEq, Repr

/-- The middle of a bounding box. -/
def BBox.center {α : Type} [Add α] [Div α] [OfNat α 2] (b : BBox α) : α × α :=
  ((b.xMax + b.xMin) / 2, (b.yMax + b.yMin) / 2)

/-- Change all four bounds, `f` those in x and `g` those in y. -/
def BBox.mapAxes {α β : Type} (f g : α → β) (b : BBox α) : BBox β :=
  ⟨f b.xMin, g b.yMin, f b.xMax, g b.yMax⟩

/-- Change the coordinates of a point. -/
def Point.mapAxes {α β : Type} (f g : α → β) (p : Point α) : Point β :=
  { x := f p.x, y := g p.y, onCurve := p.onCurve, extra := p.extra, flags := p.flags }

namespace Glyph

variable {α : Type}

/-- The class that the glyph's name puts it in. -/
def cls (g : Glyph α) : GlyphClass := GlyphClass.of g.name

/-- Give the glyph another name. -/
def rename (g : Glyph α) (name : String) : Glyph α := { g with name }

/-- All points of the glyph. -/
def points (g : Glyph α) : List (Point α) := g.contours.flatten

/-- Change every point of the glyph. -/
def mapPoints (f : Point α → Point α) (g : Glyph α) : Glyph α :=
  { g with contours := g.contours.map (·.map f) }

/-- The distance from the centre times the factor. -/
def scaleFrom [Sub α] [Mul α] (center factor v : α) : α := (v - center) * factor

/-- Is the glyph one whose outline is scaled?  Without a bounding box there is no
centre to scale from. -/
def isScalable (g : Glyph α) : Bool := g.cls.isScaled && g.bounds.isSome

/-- Scale the outline about the middle of its bounding box, and move this middle to the
origin.  Glyphs of other classes and glyphs without a bounding box stay as they are. -/
def rescale [Add α] [Sub α] [Mul α] [Div α] [OfNat α 2] (factor : α) (g : Glyph α) : Glyph α :=
  match g.bounds with
  | none => g
  | some bounds =>
      if g.cls.isScaled then
        let (cx, cy) := bounds.center
        let fx := scaleFrom cx factor
        let fy := scaleFrom cy factor
        { g.mapPoints (Point.mapAxes fx fy) with bounds := some (bounds.mapAxes fx fy) }
      else g

end Glyph

end SymbolFont
