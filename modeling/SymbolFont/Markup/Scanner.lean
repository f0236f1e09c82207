/-
# Scanning documents

The scanner divides a document into tokens.  A mark means something only in its place: in
a comment all characters are plain, in an instruction a `/` begins an end tag, and so on.
The scanner knows these places from the words it has seen alone.  Attribute values are no
place of their own for it: a comment, a section of character data or an instruction that
begins in a value hides or shows marks there as anywhere else.

Some words can be told from plain characters only behind their first character.  Such
characters are held back, so that one character may bring several tokens or none.
-/

import SymbolFont.Markup.Char
import SymbolFont.Markup.Token

namespace SymbolFont.Markup

/-- The kinds of markup that begin with a fixed word after `<!`. -/
inductive Opening where
  | comment
  | characterData
  | doctype
  deriving DecidableEq, Repr

/-- The place that the scanner is in. -/
inductive Place where
  /-- Tags and the text between them. -/
  | content
  | doctype
  /-- A declaration in a document type, and a quoted literal there. -/
  | declaration
  | literal (mark : Char)
  | comment
  | characterData
  | instruction
  /-- After `<` and after `<!`. -/
  | markup
  | bang
  /-- In the word that begins a kind of markup, with what is left of it. -/
  | word (left : List Char) (opens : Opening)
  /-- After `/` in content. -/
  | slash
  /-- After `]`, or two of them, in content and in character data. -/
  | bracket (two : Bool)
  | dataBracket (two : Bool)
  /-- After `-`, or two of them, in a comment. -/
  | dash (two : Bool)
  /-- After `?` in an instruction. -/
  | question
  deriving DecidableEq, Repr

/-- The state of scanning a document. -/
structure Scanner where
  place : Place := .content
  /-- Does markup lie in a document type, and its end lead back there? -/
  inDoctype : Bool := false
  deriving DecidableEq, Repr

/-- What a character leads to. -/
abbrev Scanned := Scanner × List Token

/-- The same behind tokens that have been held back. -/
def Scanned.after (held : List Token) (next : Scanned) : Scanned := (next.1, held ++ next.2)

namespace Scanner

/-- Go on in another place, with the tokens that lead there. -/
def moveTo (s : Scanner) (place : Place) (tokens : List Token) : Scanned :=
  ({ s with place }, tokens)

/-- The place around a piece of markup. -/
def around (s : Scanner) : Place := if s.inDoctype then .doctype else .content

/-- Read a character of content. -/
def content (s : Scanner) (c : Char) : Scanned :=
  if c = '<' then s.moveTo .markup []
  else if c = '/' then s.moveTo .slash []
  else if c = ']' then s.moveTo (.bracket false) []
  else s.moveTo .content [.ofChar c]

/-- Read a character of a document type. -/
def doctype (s : Scanner) (c : Char) : Scanned :=
  if c = '<' then s.moveTo .markup []
  else if c = '>' then ({ place := .content, inDoctype := false }, [.closeTag])
  else if c = '=' then s.moveTo .doctype [.char c]
  else s.moveTo .doctype [.ofChar c]

/-- Read a character of a declaration in a document type. -/
def declaration (s : Scanner) (c : Char) : Option Scanned :=
  if c = '<' then none
  else if c = '>' then some (s.moveTo .doctype [.closeTag])
  else if c = '"' ∨ c = '\'' then some (s.moveTo (.literal c) [.quote c])
  else if c = '=' then some (s.moveTo .declaration [.char c])
  else some (s.moveTo .declaration [.ofChar c])

/-- Read a character of character data. -/
def characterData (s : Scanner) (c : Char) : Scanned :=
  if c = ']' then s.moveTo (.dataBracket false) [] else s.moveTo .characterData [.char c]

/-- Read a character of an instruction. -/
def instruction (s : Scanner) (c : Char) : Scanned :=
  if c = '?' then s.moveTo .question []
  else if c = '/' then s.moveTo .instruction [.openEndTag]
  else s.moveTo .instruction [.ofChar c]

/-- Read the character after `<`. -/
def markup (s : Scanner) (c : Char) : Option Scanned :=
  if c = '?' then some (s.moveTo .instruction [.openInstruction])
  else if c = '/' then some (s.moveTo s.around [.openEndTag])
  else if c = '!' then some (s.moveTo .bang [])
  else if isSpace c ∨ isNameChar c then some (s.moveTo s.around [.openTag, .char c])
  else none

/-- Read the character after `<!`.  Declarations occur in document types only. -/
def bang (s : Scanner) (c : Char) : Option Scanned :=
  if c = '-' then some (s.moveTo (.word ['-'] .comment) [])
  else if c = '[' then some (s.moveTo (.word ['C', 'D', 'A', 'T', 'A', '['] .characterData) [])
  else if c = 'D' then some (s.moveTo (.word ['O', 'C', 'T', 'Y', 'P', 'E'] .doctype) [])
  else if s.inDoctype ∧ (c = 'E' ∨ c = 'A' ∨ c = 'N') then
    some (s.moveTo .declaration [.openDeclaration, .char c])
  else none

/-- Enter the markup whose word has been read. -/
def enter (s : Scanner) : Opening → Scanned
  | .comment => s.moveTo .comment [.openComment]
  | .characterData => s.moveTo .characterData [.openCharacterData]
  | .doctype => ({ place := .doctype, inDoctype := true }, [.openDoctype])

/-- Read a character of the word that begins a kind of markup. -/
def word (s : Scanner) (left : List Char) (opens : Opening) (c : Char) : Option Scanned :=
  match left with
  | [] => none
  | [last] => if c = last then some (s.enter opens) else none
  | next :: left => if c = next then some (s.moveTo (.word left opens) []) else none

/-- Read the character after `]` or after two of them, where `plain` reads a character
without brackets in front. -/
def closing (s : Scanner) (two : Bool) (pending : Bool → Place) (plain : Char → Scanned)
    (c : Char) : Scanned :=
  if c = ']' then s.moveTo (pending true) (if two then [.char ']'] else [])
  else if two ∧ c = '>' then s.moveTo .content [.closeCharacterData]
  else .after (if two then [.char ']', .char ']'] else [.char ']']) (plain c)

/-- Read the character after `-` in a comment, or after two of them, which must end it. -/
def dash (s : Scanner) (two : Bool) (c : Char) : Option Scanned :=
  if two then (if c = '>' then some (s.moveTo s.around [.closeComment]) else none)
  else if c = '-' then some (s.moveTo (.dash true) [])
  else some (s.moveTo .comment [.char '-', .char c])

/-- Read one character. -/
def step (s : Scanner) (c : Char) : Option Scanned :=
  match s.place with
  | .content => some (s.content c)
  | .doctype => some (s.doctype c)
  | .declaration => s.declaration c
  | .literal mark =>
      if c = mark then some (s.moveTo .declaration [.quote c])
      else some (s.moveTo (.literal mark) [.char c])
  | .comment => some (if c = '-' then s.moveTo (.dash false) [] else s.moveTo .comment [.char c])
  | .characterData => some (s.characterData c)
  | .instruction => some (s.instruction c)
  | .markup => s.markup c
  | .bang => s.bang c
  | .word left opens => s.word left opens c
  | .slash =>
      if c = '>' then some (s.moveTo s.around [.closeEmptyTag])
      else some (.after [.char '/'] (if s.inDoctype then s.doctype c else s.content c))
  | .bracket two => some (s.closing two .bracket s.content c)
  | .dataBracket two => some (s.closing two .dataBracket s.characterData c)
  | .dash two => s.dash two c
  | .question =>
      if c = '>' then some (s.moveTo s.around [.closeInstruction])
      else some (.after [.char '?'] (s.instruction c))

end Scanner

end SymbolFont.Markup
