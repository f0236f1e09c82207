/-
# Quoted values

An attribute value stands between two quotation marks of one kind.  Tabs and line ends
in it count as spaces, references are replaced by what they stand for, and no start tag
may begin in it.
-/

import SymbolFont.Markup.Reference
import SymbolFont.Markup.Token

namespace SymbolFont.Markup

/-- A quoted value while it is read.  Texts are reversed. -/
inductive Quoted where
  /-- Before the opening mark. -/
  | awaiting
  | inside (mark : Char) (text : List Char)
  /-- After `&`, with the name so far. -/
  | reference (mark : Char) (text name : List Char)
  deriving Repr

/-- Read one token between the marks. -/
def Quoted.takeInside (v : Version) (mark : Char) (text : List Char) :
    Token → Option (Progress Quoted (List Char))
  | .quote c =>
      if c = mark then some (.done text.reverse) else some (.more (.inside mark (c :: text)))
  | .ampersand => some (.more (.reference mark text []))
  | .openTag => none
  | .char c =>
      if v.allowsLiteral c then
        some (.more (.inside mark ((if isSpace c then ' ' else c) :: text)))
      else none
  | token => some (.more (.inside mark (token.text.reverse ++ text)))

/-- Read one token of a quoted value. -/
def Quoted.take (p : Prolog) : Quoted → Token → Option (Progress Quoted (List Char))
  | .awaiting, .char c => if isSpace c then some (.more .awaiting) else none
  | .awaiting, .quote mark => some (.more (.inside mark []))
  | .awaiting, _ => none
  | .inside mark text, token => takeInside p.version mark text token
  | .reference mark text name, .char c =>
      if continuesReference name c then some (.more (.reference mark text (c :: name))) else none
  | .reference mark text name, .semicolon =>
      match p.resolve? name.reverse with
      | some (.character r) => some (.more (.inside mark (r :: text)))
      | some (.entity value) => some (.more (.inside mark (value.reverse ++ text)))
      | none => none
  | .reference _ _ _, _ => none

end SymbolFont.Markup
