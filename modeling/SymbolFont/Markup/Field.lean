/-
# Fields of elements

Records are stored in the attributes of elements.  A field that is required and absent, or
that should be a number and is none, is reported with the element and the attribute that it
belongs to.
-/

import SymbolFont.Files
import SymbolFont.Markup.Node
import SymbolFont.Number.Text
import SymbolFont.Text.Blank

namespace SymbolFont

/-- Why a font or one of its parts could not be read. -/
inductive ReadError where
  /-- The file could not be opened. -/
  | file (fault : FileFault)
  /-- The bytes are no document. -/
  | malformed
  | missingElement (element : String)
  | missingAttribute (element key : String)
  | invalidNumber (element key value : String)
  deriving DecidableEq, Repr

/-- The text of a read error. -/
def ReadError.message : ReadError → String
  | .file fault => "I/O error: " ++ fault.message
  | .malformed => "malformed XML"
  | .missingElement element => "missing <" ++ element ++ "> element"
  | .missingAttribute element key =>
      "<" ++ element ++ "> is missing the '" ++ key ++ "' attribute"
  | .invalidNumber element key value =>
      "invalid number '" ++ value ++ "' for '" ++ key ++ "' on <" ++ element ++ ">"

namespace Markup.Element

/-- The value of a required attribute. -/
def required (e : Element) (key : String) : Except ReadError String :=
  match e.attr? key with
  | some value => .ok value
  | none => .error (.missingAttribute e.name key)

/-- The number in a required attribute; blanks around it do not count. -/
def number (e : Element) (key : String) : Except ReadError Float :=
  match e.required key with
  | .error fault => .error fault
  | .ok raw =>
      match Number.readChars (Text.trim raw.toList) with
      | some value => .ok value
      | none => .error (.invalidNumber e.name key raw)

/-- The first child element of the given name, which must be there. -/
def requiredChild (e : Element) (name : String) : Except ReadError Element :=
  match e.child? name with
  | some child => .ok child
  | none => .error (.missingElement name)

end Markup.Element

end SymbolFont
