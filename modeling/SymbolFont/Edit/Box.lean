/-
# The box glyph

The box glyph stands for the square that signs are written in.  Its outline is replaced by a
template, and it is the only glyph with an advance width.
-/

import SymbolFont.Font.Event

namespace SymbolFont

open Markup

/-- The outline for the box glyph. -/
structure BoxTemplate where
  glyph : Glyph Float
  /-- A template bears the name of the glyph that it replaces. -/
  name_eq : glyph.name = boxName

/-- Why a template could not be used. -/
inductive TemplateError where
  | unreadable (path : String) (fault : FileFault)
  | invalid (cause : ReadError)
  deriving DecidableEq, Repr

/-- The text of a template error. -/
def TemplateError.message : TemplateError → String
  | .unreadable path fault =>
      "failed to read box template '" ++ path ++ "': " ++ fault.message
  | .invalid cause => "invalid box template: " ++ cause.message

namespace BoxTemplate

/-- Make a template of a glyph, whatever its name. -/
def ofGlyph (g : Glyph Float) : BoxTemplate := ⟨g.rename boxName, rfl⟩

/-- Read the glyph of a template. -/
def readGlyph (text : String) : Except ReadError (Glyph Float) :=
  match Element.ofText? text with
  | none => .error .malformed
  | some e =>
      if e.name = Glyph.elementName then Glyph.ofElement e
      else .error (.missingElement Glyph.elementName)

/-- What there is to tell about a glyph that becomes a template. -/
def notes (g : Glyph Float) : List Event :=
  if g.name = boxName then [] else [.templateRenamed g.name]

/-- Read a template, with what there is to tell about it. -/
def ofText (text : String) : Except TemplateError (BoxTemplate × List Event) :=
  match readGlyph text with
  | .ok g => .ok (ofGlyph g, notes g)
  | .error cause => .error (.invalid cause)

/-- Read a template from a file. -/
def load (read : ReadFile) (path : String) : Except TemplateError (BoxTemplate × List Event) :=
  match read.text path with
  | .ok text => ofText text
  | .error fault => .error (.unreadable path fault)

/-- The text of the template that is used without any other. -/
def standardText : String :=
"<TTGlyph name=\"SWM\" xMin=\"0\" yMin=\"0\" xMax=\"500\" yMax=\"500\">
  <contour>
    <pt x=\"0\" y=\"0\" on=\"1\"/>
    <pt x=\"0\" y=\"500\" on=\"1\"/>
    <pt x=\"500\" y=\"500\" on=\"1\"/>
    <pt x=\"500\" y=\"0\" on=\"1\"/>
  </contour>
  <contour>
    <pt x=\"20\" y=\"20\" on=\"1\"/>
    <pt x=\"480\" y=\"20\" on=\"1\"/>
    <pt x=\"480\" y=\"480\" on=\"1\"/>
    <pt x=\"20\" y=\"480\" on=\"1\"/>
  </contour>
  <instructions/>
</TTGlyph>
"

end BoxTemplate

/-- The advance width of the box glyph. -/
def boxWidth : Float := 500

namespace Font

/-- Give the box glyph a width if it has none. -/
def setBoxWidth (width : Float) (f : Font Float) : Font Float :=
  { f with
    metrics := f.metrics.map fun m =>
      if m.cls = .box ∧ m.width == 0.0 then { m with width } else m }

/-- Replace the outline of the box glyph, if there is one. -/
def setBoxOutline? (template : BoxTemplate) (f : Font Float) : Option (Font Float) :=
  (f.glyph? boxName).map fun _ =>
    { f with glyphs := Font.modifyGlyph boxName (fun _ => template.glyph) f.glyphs }

/-- Give the box glyph its width and every other glyph none. -/
def resetWidths (width : Float) (f : Font Float) : Font Float :=
  { f with
    metrics := f.metrics.map fun m => { m with width := if m.cls = .box then width else 0.0 } }

end Font

end SymbolFont
