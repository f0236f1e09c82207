/-
# Numbering glyphs

The glyphs of the character map are numbered in two passes, first those without the marker
of extension glyphs and then those with it, each in the order of the map.  The numbers
begin behind those of the glyphs that every project has.
-/

import SymbolFont.Font.Basic

namespace SymbolFont

/-- The two halves of the character map. -/
inductive Half where
  | base
  | extension
  deriving DecidableEq, Repr

/-- Does the entry belong to the half? -/
def Half.contains (h : Half) (e : CharMapEntry) : Bool :=
  e.cls.isExtension == decide (h = .extension)

/-- The entries of one half, in the order of the map. -/
def Half.entries (h : Half) (charMap : List CharMapEntry) : List CharMapEntry :=
  charMap.filter h.contains

/-- A glyph of a project. -/
structure GlyphDefinition where
  name : String
  id : Nat
  code : UInt32
  deriving DecidableEq, Repr

/-- A glyph in a project. -/
def GlyphDefinition.render (d : GlyphDefinition) : String :=
  "DEF_GLYPH \"" ++ d.name ++ "\" ID " ++ toString d.id ++ " UNICODE " ++
    toString d.code.toNat ++ " TYPE BASE END_GLYPH"

/-- Why a project could not be generated. -/
inductive GenerateError where
  | invalidCodePoint (name code : String)
  /-- The sink refused a part of the project. -/
  | refused
  deriving DecidableEq, Repr

/-- The glyphs that every project has, in front of all others. -/
def sentinelGlyphs : List String := ["glyph0", "null", "CR"]

/-- Number entries from `id` on. -/
def numberFrom : Nat → List CharMapEntry → Except GenerateError (List GlyphDefinition)
  | _, [] => .ok []
  | id, e :: es =>
      match e.codePoint? with
      | none => .error (.invalidCodePoint e.name e.code)
      | some code =>
          match numberFrom (id + 1) es with
          | .ok rest => .ok (⟨e.name, id, code⟩ :: rest)
          | .error fault => .error fault

/-- The entries in the order in which they are numbered. -/
def numberingOrder (charMap : List CharMapEntry) : List CharMapEntry :=
  Half.entries .base charMap ++ Half.entries .extension charMap

/-- Number the glyphs of the character map. -/
def assignIds (charMap : List CharMapEntry) : Except GenerateError (List GlyphDefinition) :=
  numberFrom sentinelGlyphs.length (numberingOrder charMap)

end SymbolFont
