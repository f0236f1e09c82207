/-
# References

A reference stands for a character, by number or by one of five names, or for the text
of an entity that the document type declares.
-/

import SymbolFont.Markup.Char
import SymbolFont.Text.Digits

namespace SymbolFont.Markup

/-- What the reader has learnt from the start of the document. -/
structure Prolog where
  version : Version := .v10
  /-- Entities with their text, the earliest declaration of a name first.  The names of
  parameter entities begin with `%`. -/
  entities : List (List Char × List Char) := []

/-- Declare an entity; an earlier declaration of the name stands. -/
def Prolog.declareEntity (p : Prolog) (name text : List Char) : Prolog :=
  { p with entities := p.entities ++ [(name, text)] }

/-- The text of a declared entity. -/
def Prolog.entity? (p : Prolog) (name : List Char) : Option (List Char) :=
  p.entities.lookup name

/-- The characters with a name in every document. -/
def namedCharacters : List (String × Char) :=
  [("lt", '<'), ("gt", '>'), ("amp", '&'), ("apos", '\''), ("quot", '"')]

/-- The character of a number, `digits` being decimal or hexadecimal after an `x`.  The digits
may have a plus sign, which only the text of an entity has room for. -/
def Version.numbered? (v : Version) (digits : List Char) : Option Char :=
  let value := match digits with
    | 'x' :: hex => Text.hexValue? (Text.withoutPlus hex)
    | decimal => Text.decimalValue? (Text.withoutPlus decimal)
  value.bind fun n =>
    if n.isValidChar && v.allows (Char.ofNat n) then some (Char.ofNat n) else none

/-- What a reference stands for. -/
inductive Referent where
  | character (c : Char)
  | entity (text : List Char)
  deriving Repr

/-- Resolve the reference `&name;`. -/
def Prolog.resolve? (p : Prolog) (name : List Char) : Option Referent :=
  match name with
  | '#' :: digits => (p.version.numbered? digits).map .character
  | name =>
      match namedCharacters.lookup (String.ofList name) with
      | some c => some (.character c)
      | none => (p.entity? name).map .entity

/-- May the name of a reference go on with the character? -/
def continuesReference (name : List Char) (c : Char) : Bool :=
  if name.isEmpty then isNameStart c || c == '#' else isNameChar c

end SymbolFont.Markup
