/-
# Correcting names

In some fonts the marker of extension glyphs is followed by a space that does not belong
there.  A name is corrected by taking out this one space.  Since glyphs are referred to from
all over a font, every attribute value is corrected in the same way.
-/

import SymbolFont.Font.Basic

namespace SymbolFont

open Markup

/-- The corrected form of a name that begins with the marker and a space. -/
def corrected? (name : String) : Option String :=
  match name.toList with
  | 'S' :: 'W' :: ' ' :: rest => some (String.ofList ('S' :: 'W' :: rest))
  | _ => none

/-- A name without the space after a leading marker. -/
def corrected (name : String) : String := (corrected? name).getD name

/-- Correct a glyph's name and the attributes of the elements inside it. -/
def Glyph.correctNames {α : Type} (g : Glyph α) : Glyph α :=
  { g.rename (corrected g.name) with other := Node.mapValuesList corrected g.other }

namespace Font

variable {α : Type}

/-- Correct all names of a font. -/
def correctNames (f : Font α) : Font α where
  charMap := f.charMap.map fun e => e.rename (corrected e.name)
  glyphs := f.glyphs.map Glyph.correctNames
  metrics := f.metrics.map fun m => m.rename (corrected m.name)
  document := f.document.mapValues corrected

/-- How many glyphs have a name to be corrected. -/
def uncorrected (f : Font α) : Nat := f.glyphs.countP fun g => (corrected? g.name).isSome

end Font

end SymbolFont
