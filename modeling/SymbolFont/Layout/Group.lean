/-
# Glyph groups

A group is a named range of glyphs, given by its first and its last one.  What lies between
them is for the compiler of the project to find out.
-/

namespace SymbolFont

/-- A named range of glyphs. -/
structure GlyphGroup where
  name : String
  first : String
  last : String
  deriving DecidableEq, Repr

namespace GlyphGroup

/-- The lines of a group in a project. -/
def lines (g : GlyphGroup) : List String :=
  [ "DEF_GROUP \"" ++ g.name ++ "\"\n",
    " ENUM RANGE \"" ++ g.first ++ "\" TO \"" ++ g.last ++ "\" END_ENUM\n",
    "END_GROUP\n" ]

/-- A group in a project. -/
def render (g : GlyphGroup) : String := String.join g.lines

end GlyphGroup

end SymbolFont
