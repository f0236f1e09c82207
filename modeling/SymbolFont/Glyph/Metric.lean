/-
# Horizontal metrics

The advance width of a glyph and its left side bearing.
-/

import SymbolFont.Glyph.Class
import SymbolFont.Markup.Field

namespace SymbolFont

open Markup

/-- The horizontal metrics of a glyph. -/
structure Metric (α : Type) where
  name : String
  width : α
  lsb : α
  deriving BEq, DecidableEq, Repr

namespace Metric

variable {α : Type}

/-- The class that the glyph's name puts it in. -/
def cls (m : Metric α) : GlyphClass := GlyphClass.of m.name

/-- Give the metrics' glyph another name. -/
def rename (m : Metric α) (name : String) : Metric α := { m with name }

/-- The name of the elements that hold metrics. -/
def elementName : String := "mtx"

/-- Read metrics. -/
def ofElement (e : Element) : Except ReadError (Metric Float) := do
  let name ← e.required "name"
  let width ← e.number "width"
  let lsb ← e.number "lsb"
  return { name, width, lsb }

/-- Write metrics. -/
def toElement (m : Metric Float) : Element :=
  { name := elementName
    attributes :=
      [("name", m.name), ("width", Number.written m.width), ("lsb", Number.written m.lsb)] }

end Metric

end SymbolFont
