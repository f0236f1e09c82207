/-
# The standard revision

Names come first, since the classes of all glyphs depend on them; the width of the box is
set, and its outline replaced, before outlines are scaled, so that the template is used at
the size that it has.
-/

import SymbolFont.Edit.Basic

namespace SymbolFont

/-- The settings of the standard revision. -/
structure EditOptions where
  /-- A file with the template for the box glyph, if not the built-in one. -/
  boxTemplate : Option String := none
  scale : Float := scaleFactor
  boxWidth : Float := SymbolFont.boxWidth

/-- The edits of the standard revision. -/
def standardEdits (template : BoxTemplate) (scale width : Float) : List Edit :=
  [.correctNames, .boxWidth width, .boxOutline template, .hollowNumerals, .rescale scale,
    .resetWidths width]

namespace EditOptions

/-- Read the template, with what there is to tell about it. -/
def template (read : ReadFile) (o : EditOptions) :
    Except TemplateError (BoxTemplate × List Event) :=
  match o.boxTemplate with
  | some path => BoxTemplate.load read path
  | none => BoxTemplate.ofText BoxTemplate.standardText

/-- The edits for these settings.  The template is read here, so that a bad one is found
before any font is touched. -/
def edits (read : ReadFile) (o : EditOptions) :
    Except EditError (List Edit × List Event) :=
  match o.template read with
  | .ok (template, events) => .ok (standardEdits template o.scale o.boxWidth, events)
  | .error cause => .error (.template cause)

end EditOptions

end SymbolFont
