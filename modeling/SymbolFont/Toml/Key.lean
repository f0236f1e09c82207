/-
# Keys

A key is a list of parts joined by dots, with blanks around the parts.  A part is a bare word
or a quoted text of one line.  A key ends before the first character that does not continue
it.
-/

import SymbolFont.Toml.Quoted
import SymbolFont.Toml.Value

namespace SymbolFont.Toml

/-- May the character stand in a bare part of a key? -/
def isBareChar (c : Char) : Bool := c.isAlphanum || c == '_' || c == '-'

/-- Where in a key the reader is. -/
inductive KeyMode where
  /-- Before a part, in it, and behind it. -/
  | awaiting
  | bare (word : List Char)
  | quoted (text : Quoted)
  | behind
  deriving Repr

/-- A key while it is read.  The last part comes first. -/
structure KeyReader where
  parts : List String := []
  mode : KeyMode := .awaiting
  deriving Repr

/-- How many parts a key must stay below. -/
def keyLimit : Nat := 80

namespace KeyReader

/-- Add a part. -/
def push (k : KeyReader) (part : String) : KeyReader := ⟨part :: k.parts, .behind⟩

/-- The key that has been read. -/
def path? (k : KeyReader) : Option Path :=
  match k.parts with
  | [] => none
  | key :: way => if way.length + 1 < keyLimit then some ⟨way.reverse, key⟩ else none

/-- Read one character behind a part. -/
def stepBehind (k : KeyReader) (c : Char) : Option (Outcome KeyReader Path) :=
  if isBlank c then some (.more k)
  else if c = '.' then some (.more { k with mode := .awaiting })
  else k.path?.map .doneBefore

/-- Read one character of a key. -/
def step (k : KeyReader) (c : Char) : Option (Outcome KeyReader Path) :=
  match k.mode with
  | .awaiting =>
      if isBlank c then some (.more k)
      else if c = '"' ∨ c = '\'' then some (.more { k with mode := .quoted (.line c []) })
      else if isBareChar c then some (.more { k with mode := .bare [c] })
      else none
  | .bare word =>
      if isBareChar c then some (.more { k with mode := .bare (c :: word) })
      else (k.push (String.ofList word.reverse)).stepBehind c
  | .quoted text =>
      match text.step c with
      | none => none
      | some (.more text) => some (.more { k with mode := .quoted text })
      | some (.done part) => some (.more (k.push part))
      | some (.doneBefore part) => (k.push part).stepBehind c
  | .behind => k.stepBehind c

end KeyReader

end SymbolFont.Toml
