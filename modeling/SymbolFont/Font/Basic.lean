/-
# Fonts

A font is a document of which three parts are also kept as records: the character map, the
glyphs and the horizontal metrics.  The records are the authority; when the font is written
they replace the elements that they were read from, each in its place, and everything else
in the document stays as it is.

Only names change in the character map, so its elements are kept and given their names.
-/

import SymbolFont.Glyph.CharMap
import SymbolFont.Glyph.Metric
import SymbolFont.Glyph.Record
import SymbolFont.Markup.Printer
import SymbolFont.Markup.Reader

namespace SymbolFont

open Markup

/-- A font with coordinates of some kind. -/
structure Font (α : Type) where
  charMap : List CharMapEntry
  glyphs : List (Glyph α)
  metrics : List (Metric α)
  /-- The document that the font was read from, with the changes made to it since. -/
  document : Element
  deriving BEq, Repr

namespace Font

/-- The element with all character maps. -/
def charMapName : String := "cmap"

/-- The element with the character map that counts. -/
def subtableName : String := "cmap_format_12"

/-- The elements of the character map's entries. -/
def entryName : String := "map"

/-- The element with the glyphs. -/
def outlinesName : String := "glyf"

/-- The element with the metrics. -/
def metricsName : String := "hmtx"

/-- Read the character map. -/
def readCharMap (document : Element) : Except ReadError (List CharMapEntry) := do
  let tables ← document.requiredChild charMapName
  let subtable ← tables.requiredChild subtableName
  (subtable.named entryName).mapM CharMapEntry.ofElement

/-- Read the glyphs. -/
def readGlyphs (document : Element) : Except ReadError (List (Glyph Float)) := do
  let outlines ← document.requiredChild outlinesName
  (outlines.named Glyph.elementName).mapM Glyph.ofElement

/-- Read the metrics. -/
def readMetrics (document : Element) : Except ReadError (List (Metric Float)) := do
  let metrics ← document.requiredChild metricsName
  (metrics.named Metric.elementName).mapM Metric.ofElement

/-- Read the records of a document. -/
def ofDocument (document : Element) : Except ReadError (Font Float) := do
  let charMap ← readCharMap document
  let glyphs ← readGlyphs document
  let metrics ← readMetrics document
  return { charMap, glyphs, metrics, document }

/-- Read a font from the bytes of a document. -/
def ofBytes (bytes : List UInt8) : Except ReadError (Font Float) :=
  match Element.ofBytes? bytes with
  | some document => ofDocument document
  | none => .error .malformed

/-- Read a font from the text of a document. -/
def ofText (text : String) : Except ReadError (Font Float) :=
  match Element.ofText? text with
  | some document => ofDocument document
  | none => .error .malformed

/-- Read a font from a file.  A directory can be opened like a file but holds no bytes. -/
def load (read : ReadFile) (path : String) : Except ReadError (Font Float) :=
  match read path with
  | .ok content => ofBytes content.toList
  | .error .isDirectory => .error .malformed
  | .error fault => .error (.file fault)

/-- Put the glyphs into a document. -/
def overlayGlyphs (glyphs : List (Glyph Float)) (document : Element) : Element :=
  document.modifyChild outlinesName fun outlines =>
    outlines.replaceNamed Glyph.elementName (glyphs.map Glyph.toElement)

/-- Put the metrics into a document. -/
def overlayMetrics (metrics : List (Metric Float)) (document : Element) : Element :=
  document.modifyChild metricsName fun table =>
    table.replaceNamed Metric.elementName (metrics.map Metric.toElement)

/-- Put the names of the character map into a document. -/
def overlayCharMap (charMap : List CharMapEntry) (document : Element) : Element :=
  document.modifyChild charMapName fun tables =>
    tables.modifyChild subtableName fun subtable =>
      subtable.replaceNamed entryName
        (((subtable.named entryName).zip charMap).map fun (element, entry) =>
          element.setAttr "name" entry.name)

/-- The document with the records written back into it. -/
def toDocument (f : Font Float) : Element :=
  overlayCharMap f.charMap (overlayMetrics f.metrics (overlayGlyphs f.glyphs f.document))

/-- The text of the font's document. -/
def text (f : Font Float) : String := f.toDocument.document

variable {α : Type}

/-- The first glyph of a name. -/
def glyph? (f : Font α) (name : String) : Option (Glyph α) := f.glyphs.find? (·.name == name)

/-- The first metrics of a name. -/
def metric? (f : Font α) (name : String) : Option (Metric α) :=
  f.metrics.find? (·.name == name)

/-- Change the first glyph of a name. -/
def modifyGlyph (name : String) (change : Glyph α → Glyph α) : List (Glyph α) → List (Glyph α)
  | [] => []
  | g :: gs => if g.name = name then change g :: gs else g :: modifyGlyph name change gs

/-- How many units the side of an em has, if the document tells. -/
def unitsPerEm? (f : Font α) : Option Float :=
  (f.document.child? "head").bind fun head =>
    (head.child? "unitsPerEm").bind fun units => (units.number "value").toOption

end Font

end SymbolFont
