/-
# Edits

An edit is one step of a revision.  `apply` says what becomes of a font, and `report` what
there is to tell about it; only replacing the outline of a box glyph that is not there can
fail.

A revision is a list of edits.  It ends with the first that fails, and what has been told up
to then stays told.
-/

import SymbolFont.Edit.Box
import SymbolFont.Edit.Names
import SymbolFont.Edit.Outlines

namespace SymbolFont

/-- The edits with their settings. -/
inductive Edit where
  | correctNames
  | boxWidth (width : Float)
  | boxOutline (template : BoxTemplate)
  | hollowNumerals
  | rescale (factor : Float)
  | resetWidths (boxWidth : Float)

/-- Why an edit failed. -/
inductive EditError where
  | template (cause : TemplateError)
  | boxGlyphMissing (name : String)
  deriving DecidableEq, Repr

/-- The text of an edit error. -/
def EditError.message : EditError → String
  | .template cause => cause.message
  | .boxGlyphMissing name => "no outline for box glyph '" ++ name ++ "'"

namespace Edit

/-- What an edit is called. -/
def name : Edit → String
  | .correctNames => "correct names"
  | .boxWidth _ => "box width"
  | .boxOutline _ => "box outline"
  | .hollowNumerals => "hollow numerals"
  | .rescale _ => "rescale"
  | .resetWidths _ => "reset widths"

/-- The font after an edit. -/
def apply (f : Font Float) : Edit → Except EditError (Font Float)
  | .correctNames => .ok f.correctNames
  | .boxWidth width => .ok (f.setBoxWidth width)
  | .boxOutline template =>
      match f.setBoxOutline? template with
      | some edited => .ok edited
      | none => .error (.boxGlyphMissing boxName)
  | .hollowNumerals => .ok f.hollowNumerals
  | .rescale factor => .ok (f.rescale factor)
  | .resetWidths width => .ok (f.resetWidths width)

/-- What there is to tell about an edit of the font. -/
def report (f : Font Float) : Edit → List Event
  | .correctNames => [.namesCorrected f.uncorrected]
  | .hollowNumerals => [.numeralsHollowed (f.glyphs.countP Glyph.isFilledNumeral)]
  | .rescale factor =>
      (f.unexpectedUnits?.map .unexpectedUnits).toList ++
        [.rescaled (f.glyphs.countP Glyph.isScalable) factor]
  | .boxWidth _ | .boxOutline _ | .resetWidths _ => []

/-- Apply edits one after the other. -/
def run (edits : List Edit) (f : Font Float) : Except EditError (Font Float) :=
  edits.foldlM apply f

/-- What there is to tell about edits that are applied one after the other. -/
def runReport : List Edit → Font Float → List Event
  | [], _ => []
  | edit :: edits, f =>
      .applying edit.name :: edit.report f ++
        match edit.apply f with
        | .ok edited => runReport edits edited
        | .error _ => []

end Edit

end SymbolFont
