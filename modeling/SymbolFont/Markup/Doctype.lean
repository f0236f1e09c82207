/-
# Document types

The declaration of a document type has a name, identifiers of external parts and lists of
declarations.  It is read for the entities declared in the lists; everything else must
have its form but is passed over.  An entity is declared at most once, the first
declaration counting.  Within the text of an entity, references by number and to parameter
entities are replaced at once, while other references wait until the entity is used.

A parameter entity between declarations is read in its place, so a step may hand back
text to be read next.
-/

import SymbolFont.Markup.Instruction
import SymbolFont.Markup.Reference

namespace SymbolFont.Markup

/-- The identifiers of something outside the document. -/
inductive ExternalId where
  | publicId
  | systemId
  deriving DecidableEq, Repr

/-- The identifiers that follow a keyword. -/
def ExternalId.ofKeyword? (keyword : String) : Option (List ExternalId) :=
  if keyword = "SYSTEM" then some [.systemId]
  else if keyword = "PUBLIC" then some [.publicId, .systemId]
  else none

/-- The marks that a public identifier may hold besides letters and digits. -/
def publicMarks : List Char := " \n\r-'()+,./:=?;!*#@$_%".toList

/-- May the identifier hold the character? -/
def ExternalId.allows (v : Version) (c : Char) : ExternalId → Bool
  | .publicId => c.isAlphanum || publicMarks.contains c
  | .systemId => v.allows c

/-- May the token stand in the identifier?  The marks of references have no place in the
identifier of a system. -/
def ExternalId.admits (v : Version) (kind : ExternalId) : Token → Bool
  | .char c => kind.allows v c
  | .quote c => kind.allows v c
  | .semicolon => kind == .publicId
  | _ => false

/-- Where in a document type the reader is.  Texts and names are reversed. -/
inductive DoctypeMode where
  /-- Before the name of the document type. -/
  | start
  | name
  /-- After the name, outside of the lists of declarations. -/
  | outside
  /-- In the keyword in front of identifiers. -/
  | keyword (text : List Char)
  /-- Before an identifier and those that follow it. -/
  | identifier (kind : ExternalId) (others : List ExternalId)
  | identifierText (mark : Char) (kind : ExternalId) (others : List ExternalId)
  /-- Between declarations. -/
  | between
  /-- In a quoted literal between declarations. -/
  | literal (mark : Char)
  | comment
  | instruction (mode : InstructionMode)
  | declaration (keyword : List Char)
  | beforeName
  /-- After the `%` that marks a parameter entity. -/
  | beforeParameter
  | entityName (text : List Char)
  | beforeText (name : List Char)
  | text (name value : List Char)
  /-- In the text of an entity after `&`, after `&#` and after `%`. -/
  | ampersand (name value : List Char)
  | number (name value digits : List Char)
  | parameterInText (name value parameter : List Char)
  /-- The rest of a declaration. -/
  | rest
  /-- A parameter entity between declarations. -/
  | parameter (name : List Char)
  deriving Repr

/-- What a token in a document type leads to. -/
structure DoctypeStep where
  /-- Nothing after the end of the document type. -/
  mode : Option DoctypeMode
  prolog : Prolog
  /-- Text to be read before what follows. -/
  insertion : List Char := []

/-- The keywords of declarations that are passed over. -/
def passedKeywords : List String := ["NOTATION", "ELEMENT", "ATTLIST"]

namespace DoctypeMode

/-- Is the character a letter of a keyword? -/
def isKeywordChar (c : Char) : Bool := c.isUpper

/-- Go on behind the keyword in front of identifiers. -/
def afterKeyword (word : List Char) : Option DoctypeMode :=
  match ExternalId.ofKeyword? (String.ofList word.reverse) with
  | some (kind :: others) => some (.identifier kind others)
  | _ => none

/-- Go on behind an identifier. -/
def afterIdentifier : List ExternalId → DoctypeMode
  | [] => .outside
  | kind :: others => .identifier kind others

/-- Read a token before an identifier. -/
def takeIdentifier (kind : ExternalId) (others : List ExternalId) :
    Token → Option DoctypeMode
  | .char c => if isSpace c then some (.identifier kind others) else none
  | .quote mark => some (.identifierText mark kind others)
  | _ => none

/-- Read a token in the name of the document type or outside of the lists of declarations,
except for the end of the document type. -/
def takeOutside (v : Version) : DoctypeMode → Token → Option DoctypeMode
  | .start, .char c =>
      if isSpace c then some .start else if isNameStart c then some .name else none
  | .name, .char c =>
      if isNameChar c then some .name else if isSpace c then some .outside else none
  | .outside, .char c =>
      if isSpace c then some .outside
      else if c = '[' then some .between
      else if isKeywordChar c then some (.keyword [c])
      else none
  | .keyword word, .char c =>
      if isKeywordChar c then some (.keyword (c :: word))
      else if isSpace c then afterKeyword word
      else none
  | .keyword word, .quote mark =>
      match afterKeyword word with
      | some (.identifier kind others) => some (.identifierText mark kind others)
      | _ => none
  | .identifier kind others, token => takeIdentifier kind others token
  | .identifierText mark kind others, token =>
      if token = .quote mark then some (afterIdentifier others)
      else if kind.admits v token then some (.identifierText mark kind others)
      else none
  | _, _ => none

/-- Read a token between declarations. -/
def takeBetween : Token → Option DoctypeMode
  | .char c =>
      if isSpace c then some .between
      else if c = ']' then some .outside
      else if c = '%' then some (.parameter ['%'])
      else none
  | .quote mark => some (.literal mark)
  | .openComment => some .comment
  | .openInstruction => some (.instruction (.target []))
  | .openDeclaration => some (.declaration [])
  | _ => none

/-- Read a token of what is passed over between declarations. -/
def takePassed (v : Version) : DoctypeMode → Token → Option DoctypeMode
  | .literal mark, token => some (if token = .quote mark then .between else .literal mark)
  | .comment, token => some (if token = .closeComment then .between else .comment)
  | .instruction mode, token =>
      match mode.take v token with
      | some (.more mode) => some (.instruction mode)
      | some (.done .plain) => some .between
      | _ => none
  | .rest, token => some (if token = .closeTag then .between else .rest)
  | _, _ => none

/-- Read a character of a declaration up to the text of the entity. -/
def takeDeclaration : DoctypeMode → Char → Option DoctypeMode
  | .declaration word, c =>
      if isKeywordChar c then some (.declaration (c :: word))
      else if isSpace c then
        let word := String.ofList word.reverse
        if word = "ENTITY" then some .beforeName
        else if passedKeywords.contains word then some .rest
        else none
      else none
  | .beforeName, c =>
      if isSpace c then some .beforeName
      else if c = '%' then some .beforeParameter
      else if isNameStart c then some (.entityName [c])
      else none
  | .beforeParameter, c =>
      if isSpace c then some .beforeParameter
      else if isNameStart c then some (.entityName [c, '%'])
      else none
  | .entityName id, c =>
      if isSpace c then some (.beforeText id)
      else if isNameChar c then some (.entityName (c :: id))
      else none
  | _, _ => none

/-- Read a character in the text of an entity, where all marks but the closing quotation
mark are plain. -/
def takeText (p : Prolog) : DoctypeMode → Char → Option DoctypeMode
  | .text id value, c =>
      if c = '&' then some (.ampersand id value)
      else if c = '%' then some (.parameterInText id value ['%'])
      else if p.version.allows c then some (.text id (c :: value))
      else none
  | .ampersand id value, c =>
      if c = '#' then some (.number id value [])
      else if p.version.allows c then some (.text id (c :: '&' :: value))
      else none
  | .number id value digits, c =>
      if c = ';' then
        (p.version.numbered? digits.reverse).map fun r => .text id (r :: value)
      else if p.version.allows c then some (.number id value (c :: digits))
      else none
  | .parameterInText id value key, c =>
      if isNameChar c then some (.parameterInText id value (c :: key))
      else if c = ';' then
        (p.entity? key.reverse).map fun replacement =>
          .text id (replacement.reverse ++ value)
      else none
  | _, _ => none

/-- Read one token of a document type. -/
def take (p : Prolog) (mode : DoctypeMode) (token : Token) : Option DoctypeStep :=
  let goto (mode : DoctypeMode) : DoctypeStep := { mode := some mode, prolog := p }
  match mode, token with
  | .name, .closeTag => some { mode := none, prolog := p }
  | .outside, .closeTag => some { mode := none, prolog := p }
  | .between, token => (takeBetween token).map goto
  | .literal _, token => (takePassed p.version mode token).map goto
  | .comment, token => (takePassed p.version mode token).map goto
  | .instruction _, token => (takePassed p.version mode token).map goto
  | .rest, token => (takePassed p.version mode token).map goto
  | .declaration _, .char c => (takeDeclaration mode c).map goto
  | .beforeName, .char c => (takeDeclaration mode c).map goto
  | .beforeParameter, .char c => (takeDeclaration mode c).map goto
  | .entityName _, .char c => (takeDeclaration mode c).map goto
  | .beforeText id, .char c =>
      if isSpace c then some (goto mode)
      else if c = 'S' ∨ c = 'P' then
        some { mode := some .rest, prolog := p.declareEntity id.reverse [] }
      else none
  | .beforeText id, .quote _ => some (goto (.text id []))
  | .text id value, .quote _ =>
      some { mode := some .rest, prolog := p.declareEntity id.reverse value.reverse }
  | .text _ _, .char c => (takeText p mode c).map goto
  | .ampersand _ _, .char c => (takeText p mode c).map goto
  | .number _ _ _, .char c => (takeText p mode c).map goto
  | .parameterInText _ _ _, .char c => (takeText p mode c).map goto
  | .parameter key, .char c => if isNameChar c then some (goto (.parameter (c :: key))) else none
  | .parameter key, .semicolon =>
      (p.entity? key.reverse).map fun replacement =>
        { goto .between with insertion := replacement }
  | mode, token => (takeOutside p.version mode token).map goto

end DoctypeMode

end SymbolFont.Markup
