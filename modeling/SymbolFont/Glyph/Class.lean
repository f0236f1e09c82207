/-
# Classes of glyphs

What is done with a glyph depends on its name.  The names of a symbol font mark its
extension glyphs with `SW`; among these are the number glyphs, where a digit from 2 to 7
follows the marker, and the box glyph.
-/

namespace SymbolFont

/-- The mark of extension glyphs. -/
def extensionMarker : String := "SW"

/-- The name of the box glyph. -/
def boxName : String := "SWM"

/-- The glyphs that every font has for itself. -/
def reservedNames : List String := [".notdef", ".null", "nonmarkingreturn"]

/-- The classes of glyphs. -/
inductive GlyphClass where
  | base
  | extension
  | numeral
  | box
  | reserved
  deriving DecidableEq, Repr

/-- Does the marker occur? -/
def hasMarker : List Char → Bool
  | 'S' :: 'W' :: _ => true
  | _ :: rest => hasMarker rest
  | [] => false

/-- Is the character one that makes a marker before it the start of a number? -/
def isNumeralDigit (c : Char) : Bool := '2' ≤ c && c ≤ '7'

/-- Does the marker occur with a digit from 2 to 7 behind it? -/
def hasNumeral : List Char → Bool
  | 'S' :: 'W' :: rest => rest.head?.any isNumeralDigit || hasNumeral rest
  | _ :: rest => hasNumeral rest
  | [] => false

namespace GlyphClass

/-- The class of a name. -/
def of (name : String) : GlyphClass :=
  if reservedNames.contains name then .reserved
  else if name = boxName then .box
  else if hasNumeral name.toList then .numeral
  else if hasMarker name.toList then .extension
  else .base

/-- Does the class belong to the extension glyphs? -/
def isExtension : GlyphClass → Bool
  | .extension | .numeral | .box => true
  | .base | .reserved => false

/-- Are outlines of the class scaled? -/
def isScaled : GlyphClass → Bool
  | .base | .extension => true
  | .numeral | .box | .reserved => false

end GlyphClass

end SymbolFont
