/-
# Start tags

A start tag is a name followed by attributes, each set off by white space.  Attributes
that bind a qualifier, or give a meaning to unqualified names, are not kept; the bindings
made by the former are.
-/

import SymbolFont.Markup.Name
import SymbolFont.Markup.Node
import SymbolFont.Markup.Quoted

namespace SymbolFont.Markup

/-- A start tag as far as it has been read; the last attribute comes first. -/
structure TagHead where
  name : QName
  attributes : List (QName × String) := []
  /-- The bindings that the tag makes, in their order: the first one of a qualifier counts. -/
  bindings : Bindings := []
  deriving Repr

/-- The values that the meaning of unqualified names cannot be. -/
def refusedAddresses : List String :=
  [declaringName, standardName, standardAddress, declaringAddress]

/-- Add an attribute that has been read.  A qualifier cannot be bound to nothing, and the
two reserved ones keep their meaning. -/
def TagHead.add (head : TagHead) (name : QName) (value : String) : Option TagHead :=
  if name.qualifier = some declaringName then
    let qualifier := name.localName
    if qualifier = declaringName ∨ (qualifier = standardName ∧ value ≠ standardAddress) ∨
        value = ""
    then none
    else some { head with bindings := head.bindings ++ [(qualifier, value)] }
  else if name = ⟨none, declaringName⟩ then
    if refusedAddresses.contains value then none else some head
  else some { head with attributes := (name, value) :: head.attributes }

/-- The attributes under their local names, in document order. -/
def TagHead.localAttributes (head : TagHead) : Attributes :=
  (head.attributes.map fun (name, value) => (name.localName, value)).reverse

/-- Are all qualifiers of the tag bound, given the bindings in scope? -/
def TagHead.isBound (head : TagHead) (bindings : Bindings) : Bool :=
  head.name.isBound bindings && head.attributes.all fun (name, _) => name.isBound bindings

/-- Do all attributes differ in meaning? -/
def TagHead.isDistinct (head : TagHead) (bindings : Bindings) : Bool :=
  decide (head.attributes.map fun (name, _) => name.meaning bindings).Nodup

/-- Where in a start tag the reader is.  Texts are reversed. -/
inductive TagMode where
  | name (text : List Char)
  /-- After white space. -/
  | gap (head : TagHead)
  | attribute (head : TagHead) (text : List Char)
  /-- After the name of an attribute. -/
  | equals (head : TagHead) (name : QName)
  | value (head : TagHead) (name : QName) (quoted : Quoted)
  /-- After the value of an attribute. -/
  | valued (head : TagHead)
  deriving Repr

/-- A complete start tag, and whether the element ends with it. -/
abbrev StartTag := TagHead × Bool

/-- The end of the tag, if the token is one. -/
def TagHead.close (head : TagHead) : Token → Option (Progress TagMode StartTag)
  | .closeTag => some (.done (head, false))
  | .closeEmptyTag => some (.done (head, true))
  | _ => none

/-- The head of a tag whose name has been read. -/
def TagHead.ofName? (text : List Char) : Option TagHead :=
  ((QName.ofChars? text.reverse).filter fun name => !name.isReserved).map fun name => { name }

/-- Take the name of an attribute; no name may come twice. -/
def TagHead.named (head : TagHead) (text : List Char) : Option QName :=
  (QName.ofChars? text.reverse).filter fun name =>
    !head.attributes.any fun (other, _) => other == name

/-- Read one token of a start tag. -/
def TagMode.take (p : Prolog) : TagMode → Token → Option (Progress TagMode StartTag)
  | .name text, .char c =>
      if isNameChar c then some (.more (.name (c :: text)))
      else if isSpace c then (TagHead.ofName? text).map fun head => .more (.gap head)
      else none
  | .name text, token => (TagHead.ofName? text).bind fun head => head.close token
  | .gap head, .char c =>
      if isSpace c then some (.more (.gap head))
      else if isNameStart c then some (.more (.attribute head [c]))
      else none
  | .gap head, token => head.close token
  | .attribute head text, .char c =>
      if isNameChar c then some (.more (.attribute head (c :: text)))
      else if isSpace c then (head.named text).map fun key => .more (.equals head key)
      else none
  | .attribute head text, .equals =>
      (head.named text).map fun key => .more (.value head key .awaiting)
  | .attribute _ _, _ => none
  | .equals head key, .char c => if isSpace c then some (.more (.equals head key)) else none
  | .equals head key, .equals => some (.more (.value head key .awaiting))
  | .equals _ _, _ => none
  | .value head key quoted, token =>
      match quoted.take p token with
      | none => none
      | some (.more quoted) => some (.more (.value head key quoted))
      | some (.done content) =>
          (head.add key (String.ofList content)).map fun head => .more (.valued head)
  | .valued head, .char c => if isSpace c then some (.more (.gap head)) else none
  | .valued head, token => head.close token

end SymbolFont.Markup
