/-
# Layout projects

A project for the layout compiler lists the glyphs of a font with their numbers, the script
with its feature, the groups, the lookups, and at the end the character maps that the
compiler shall build.

All code points are decoded before anything is written.
-/

import SymbolFont.Font.Event
import SymbolFont.Layout.Group
import SymbolFont.Layout.Numbering
import SymbolFont.Layout.Script

namespace SymbolFont

/-- The part of a project that does not come from a font. -/
structure Project where
  script : ScriptOptions := {}
  groups : List GlyphGroup := []
  rules : List PositioningRule := []
  deriving DecidableEq, Repr

/-- The character maps to be built, with the end of the project. -/
def charMapLines : List String :=
  [ "CMAP_FORMAT 0 3 4\n", "CMAP_FORMAT 0 4 12\n", "CMAP_FORMAT 1 0 0\n",
    "CMAP_FORMAT 3 1 4\n", "CMAP_FORMAT 3 10 12 END\n" ]

/-- The lines of the sentinel glyphs, numbered from `id` on. -/
def sentinelLines : Nat → List String → List String
  | _, [] => []
  | id, name :: names =>
      ("DEF_GLYPH \"" ++ name ++ "\" ID " ++ toString id ++ " TYPE BASE END_GLYPH\n") ::
        sentinelLines (id + 1) names

/-- The text of an error, given why the sink refused if it did. -/
def GenerateError.message (refusal : String) : GenerateError → String
  | .invalidCodePoint name code =>
      "glyph '" ++ name ++ "' has invalid code point '" ++ code ++ "'"
  | .refused => "failed to write project: " ++ refusal

namespace Project

/-- The lines of a project with these glyphs. -/
def lines (p : Project) (glyphs : List GlyphDefinition) : List String :=
  "\n" :: sentinelLines 0 sentinelGlyphs ++
    glyphs.map (fun d => d.render ++ "\n") ++
    p.script.lines p.rules ++
    p.groups.flatMap GlyphGroup.lines ++
    p.rules.flatMap PositioningRule.lines ++
    charMapLines

/-- The text of the project for a character map. -/
def generate (p : Project) (charMap : List CharMapEntry) : Except GenerateError String :=
  (assignIds charMap).map fun glyphs => String.join (p.lines glyphs)

/-- Write the project for a character map to a sink with the given room. -/
def deliver (p : Project) (charMap : List CharMapEntry) (room : Nat) :
    Text.Delivery × Option GenerateError :=
  match assignIds charMap with
  | .error fault => (⟨[], some room⟩, some fault)
  | .ok glyphs =>
      let delivery := Text.deliverText room (p.lines glyphs)
      (delivery, if delivery.isComplete then none else some .refused)

/-- What there is to tell about generating a project. -/
def report (p : Project) (charMap : List CharMapEntry) : List Event :=
  match assignIds charMap with
  | .error _ => []
  | .ok glyphs => [.generating glyphs.length p.groups.length p.rules.length]

end Project

end SymbolFont
