/-
# Editing outlines

Number glyphs lose their contours, since their names are only used as coordinates.  The
outlines of symbols are scaled down to the size of the box.
-/

import SymbolFont.Font.Event

namespace SymbolFont

/-- Does the glyph stand for a number although it has contours? -/
def Glyph.isFilledNumeral {α : Type} (g : Glyph α) : Bool :=
  g.cls == .numeral && !g.contours.isEmpty

namespace Font

variable {α : Type}

/-- Take the contours out of all number glyphs. -/
def hollowNumerals (f : Font α) : Font α :=
  { f with
    glyphs := f.glyphs.map fun g => if g.isFilledNumeral then { g with contours := [] } else g }

/-- Scale the outlines of all symbols. -/
def rescale [Add α] [Sub α] [Mul α] [Div α] [OfNat α 2] (factor : α) (f : Font α) : Font α :=
  { f with glyphs := f.glyphs.map (Glyph.rescale factor) }

/-- The number of units per em, if it is known and not the expected one. -/
def unexpectedUnits? (f : Font Float) : Option Float :=
  f.unitsPerEm?.filter fun units => units != expectedUnits

end Font

/-- The factor that outlines are scaled by. -/
def scaleFactor : Float := 0.09

end SymbolFont
