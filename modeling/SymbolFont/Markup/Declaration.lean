/-
# The declaration of a document

A document may begin with a declaration of its version, its encoding and whether it
stands alone, in this order; only the version is required.  The version is in force as
soon as it has been read.
-/

import SymbolFont.Markup.Name
import SymbolFont.Markup.Quoted

namespace SymbolFont.Markup

/-- The parts of a declaration. -/
inductive DeclarationField where
  | version
  | encoding
  | standalone
  deriving DecidableEq, Repr

/-- The fields in the order in which they may come. -/
def DeclarationField.rank : DeclarationField → Nat
  | .version => 0
  | .encoding => 1
  | .standalone => 2

/-- The field whose name begins with the character, if it may come at the given rank.  The
version cannot be left out. -/
def DeclarationField.ofInitial? (rank : Nat) (c : Char) : Option DeclarationField :=
  if c = 'v' ∧ rank = 0 then some .version
  else if c = 'e' ∧ rank = 1 then some .encoding
  else if c = 's' ∧ (rank = 1 ∨ rank = 2) then some .standalone
  else none

/-- The name of the field behind its initial. -/
def DeclarationField.remainder : DeclarationField → String
  | .version => "ersion"
  | .encoding => "ncoding"
  | .standalone => "tandalone"

/-- Is the text the name of the field behind its initial?  It may carry a qualifier. -/
def DeclarationField.matches (field : DeclarationField) (text : List Char) : Bool :=
  (QName.ofChars? text).any fun name => name.localName == field.remainder

/-- What a declaration says. -/
structure Declaration where
  version : Version := .v10
  encoding : Option String := none
  deriving Repr

/-- The version of a number: `1.1`, or any other `1.` with digits, which is read
like `1.0`. -/
def Version.ofNumber? (number : List Char) : Option Version :=
  match number with
  | '1' :: '.' :: minor =>
      if minor.isEmpty || !minor.all Char.isDigit then none
      else some (if minor = ['1'] then .v11 else .v10)
  | _ => none

/-- Add a field that has been read. -/
def Declaration.add (d : Declaration) (field : DeclarationField) (value : List Char) :
    Option Declaration :=
  match field with
  | .version => (Version.ofNumber? value).map fun version => { d with version }
  | .encoding => some { d with encoding := some (String.ofList value) }
  | .standalone =>
      let word := String.ofList value
      if word = "yes" ∨ word = "no" then some d else none

/-- Where in a declaration the reader is.  `rank` is that of the first field that may
still come. -/
inductive DeclarationMode where
  /-- After white space. -/
  | gap (d : Declaration) (rank : Nat)
  /-- In the name of a field behind its initial, reversed. -/
  | name (d : Declaration) (field : DeclarationField) (text : List Char)
  /-- After the name of a field. -/
  | equals (d : Declaration) (field : DeclarationField)
  | value (d : Declaration) (field : DeclarationField) (quoted : Quoted)
  /-- After the value of a field. -/
  | valued (d : Declaration) (rank : Nat)
  deriving Repr

/-- Read one token of a declaration. -/
def DeclarationMode.take :
    DeclarationMode → Token → Option (Progress DeclarationMode Declaration)
  | .gap d rank, .char c =>
      if isSpace c then some (.more (.gap d rank))
      else (DeclarationField.ofInitial? rank c).map fun field => .more (.name d field [])
  | .gap d rank, .closeInstruction => if rank = 0 then none else some (.done d)
  | .gap _ _, _ => none
  | .name d field text, .char c =>
      if isNameChar c then some (.more (.name d field (c :: text)))
      else if isSpace c ∧ field.matches text.reverse then some (.more (.equals d field))
      else none
  | .name d field text, .equals =>
      if field.matches text.reverse then some (.more (.value d field .awaiting)) else none
  | .name _ _ _, _ => none
  | .equals d field, .char c => if isSpace c then some (.more (.equals d field)) else none
  | .equals d field, .equals => some (.more (.value d field .awaiting))
  | .equals _ _, _ => none
  | .value d field quoted, token =>
      match quoted.take { version := d.version } token with
      | none => none
      | some (.more quoted) => some (.more (.value d field quoted))
      | some (.done content) =>
          (d.add field content).map fun d => .more (.valued d (field.rank + 1))
  | .valued d rank, .char c => if isSpace c then some (.more (.gap d rank)) else none
  | .valued d _, .closeInstruction => some (.done d)
  | .valued _ _, _ => none

end SymbolFont.Markup
