/-
# Glyphs as elements

A glyph is an element with its name and its bounding box in attributes.  Among its
children, elements named `contour` hold the points; all other nodes are kept as they are.
A glyph without an outline has no bounding box, so the box is read only if its first bound
is there.

The number in a point's `on` attribute is a set of flags of which the lowest tells whether
the point is on the curve.  The others are kept.
-/

import SymbolFont.Glyph.Outline
import SymbolFont.Markup.Field

namespace SymbolFont

open Markup

/-- The attributes that a point's fields come from. -/
def pointKeys : List String := ["x", "y", "on"]

/-- Read the flags of a point, if it has any. -/
def Point.readFlags (e : Element) : Except ReadError (Option UInt32) :=
  if (e.attr? "on").isSome then (e.number "on").map fun n => some n.toUInt32 else .ok none

/-- Read a point. -/
def Point.ofElement (e : Element) : Except ReadError (Point Float) := do
  let flags ← readFlags e
  let x ← e.number "x"
  let y ← e.number "y"
  return {
    x, y, flags
    onCurve := flags.any fun f => f &&& 1 == 1
    extra := e.attributes.filter fun (key, _) => !pointKeys.contains key }

/-- The flags that a point is written with: those it was read with, but for the lowest.
Without any, only a point on the curve has flags. -/
def Point.writtenFlags {α : Type} (p : Point α) : Option UInt32 :=
  match p.flags with
  | some flags => some ((flags &&& ~~~1) ||| (if p.onCurve then 1 else 0))
  | none => if p.onCurve then some 1 else none

/-- Write a point. -/
def Point.toElement (p : Point Float) : Element :=
  { name := "pt"
    attributes :=
      [("x", Number.written p.x), ("y", Number.written p.y)] ++
        (p.writtenFlags.map fun flags => ("on", toString flags.toNat)).toList ++ p.extra }

/-- The name of the elements that hold contours. -/
def contourName : String := "contour"

/-- Read a contour; only points count. -/
def Contour.ofElement (e : Element) : Except ReadError (Contour Float) :=
  (e.named "pt").mapM Point.ofElement

/-- Write a contour. -/
def Contour.toElement (c : Contour Float) : Element :=
  { name := contourName, children := c.map fun p => p.toElement.toNode }

/-- Read a bounding box. -/
def BBox.ofElement (e : Element) : Except ReadError (BBox Float) := do
  let xMin ← e.number "xMin"
  let yMin ← e.number "yMin"
  let xMax ← e.number "xMax"
  let yMax ← e.number "yMax"
  return ⟨xMin, yMin, xMax, yMax⟩

/-- Write a bounding box. -/
def BBox.toAttributes (b : BBox Float) : Attributes :=
  [("xMin", Number.written b.xMin), ("yMin", Number.written b.yMin),
    ("xMax", Number.written b.xMax), ("yMax", Number.written b.yMax)]

namespace Glyph

/-- The name of the elements that hold glyphs. -/
def elementName : String := "TTGlyph"

/-- Read the bounding box, if the element has its first bound. -/
def readBounds (e : Element) : Except ReadError (Option (BBox Float)) :=
  if (e.attr? "xMin").isSome then (BBox.ofElement e).map some else .ok none

/-- Read a glyph. -/
def ofElement (e : Element) : Except ReadError (Glyph Float) := do
  let name ← e.required "name"
  let bounds ← readBounds e
  let contours ← (e.named contourName).mapM Contour.ofElement
  return {
    name, bounds, contours
    other := e.children.filter fun node => !node.isElement contourName }

/-- Write a glyph: its contours first, then its other nodes. -/
def toElement (g : Glyph Float) : Element :=
  { name := elementName
    attributes := ("name", g.name) :: (g.bounds.map BBox.toAttributes).getD []
    children := (g.contours.map fun c => (Contour.toElement c).toNode) ++ g.other }

end Glyph

end SymbolFont
