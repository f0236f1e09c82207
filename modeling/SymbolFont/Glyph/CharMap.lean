/-
# The character map

An entry gives a glyph its character, by a number that is written in hexadecimal.
-/

import SymbolFont.Glyph.Class
import SymbolFont.Markup.Field
import SymbolFont.Text.Digits

namespace SymbolFont

open Markup

/-- An entry of the character map. -/
structure CharMapEntry where
  name : String
  /-- The number of the character as it is written. -/
  code : String
  deriving BEq, DecidableEq, Repr

/-- Strip one hexadecimal mark. -/
def stripHexMark : List Char → List Char
  | '0' :: 'x' :: rest => rest
  | '0' :: 'X' :: rest => rest
  | cs => cs

/-- The code point that a text stands for: hexadecimal digits, with an optional mark, an
optional plus sign behind it and blanks around, of a value that fits into 32 bits. -/
def codePoint? (code : String) : Option UInt32 :=
  let digits := Text.withoutPlus (stripHexMark (Text.trim code.toList))
  (Text.hexValue? digits).bind fun n => if n < UInt32.size then some (UInt32.ofNat n) else none

namespace CharMapEntry

/-- The class that the glyph's name puts it in. -/
def cls (e : CharMapEntry) : GlyphClass := GlyphClass.of e.name

/-- Give the entry's glyph another name. -/
def rename (e : CharMapEntry) (name : String) : CharMapEntry := { e with name }

/-- The code point of the entry. -/
def codePoint? (e : CharMapEntry) : Option UInt32 := SymbolFont.codePoint? e.code

/-- Read an entry. -/
def ofElement (e : Element) : Except ReadError CharMapEntry := do
  let name ← e.required "name"
  let code ← e.required "code"
  return { name, code }

end CharMapEntry

end SymbolFont
