/-
# Reading documents

A document is read by a machine that takes one character at a time.  `Reader.step` is its
transition; it fails at the first character that cannot continue a document.  The scanner
turns characters into tokens.  Markup of each kind has its own machine, in the modules
imported here; this one knows how they follow one another, which elements are open, and
what becomes of text.

* A run of text that is white space only is dropped, even if written by references.  It
  is kept if an entity stands at its beginning.
* Sections of character data are text nodes of their own, also blank or empty ones.
* Instructions are dropped but end a run of text.
* Comments outside the root are dropped.  Of several roots the last one counts.

An entity in text is read again as markup in the place of its reference.  At most
`expansionLimit` entities are read between two characters of the document itself.

Below this sits a second machine, `Session`, that takes bytes: it decodes them, turns all
line ends into line feeds, and changes the encoding when the document declares one.
-/

import SymbolFont.Markup.Encoding
import SymbolFont.Markup.Scanner
import SymbolFont.Markup.Tag
import SymbolFont.Markup.Declaration
import SymbolFont.Markup.Doctype

namespace SymbolFont.Markup

/-- How far a document has come: what may still follow depends on it. -/
inductive Stage where
  /-- Nothing yet: a declaration may follow. -/
  | opening
  /-- A document type may follow. -/
  | prolog
  /-- A document type or an element has been read. -/
  | body
  deriving DecidableEq, Repr

/-- The stage after something that keeps a declaration from following. -/
def Stage.past : Stage → Stage
  | .opening => .prolog
  | stage => stage

/-- A run of text, reversed. -/
structure Run where
  text : List Char := []
  blank : Bool := true
  deriving Repr

/-- Add a character to a run. -/
def Run.add (run : Run) (c : Char) : Run := ⟨c :: run.text, run.blank && isSpace c⟩

/-- Add marks that have no meaning in text. -/
def Run.addMarks (run : Run) (marks : List Char) : Run := ⟨marks.reverse ++ run.text, false⟩

/-- The run behind a reference to an entity.  It is blank only if it was and had begun. -/
def Run.addEntity (run : Run) : Run := { run with blank := run.blank && !run.text.isEmpty }

/-- An element that has not ended.  The last child comes first. -/
structure Frame where
  name : QName
  attributes : Attributes
  children : List Node := []
  /-- The bindings inside the element. -/
  bindings : Bindings
  deriving Repr

/-- Where in a document the reader is.  Texts are reversed. -/
inductive Mode where
  | content (run : Run)
  /-- In text after `&`, with the name so far. -/
  | reference (run : Run) (name : List Char)
  | comment (text : List Char)
  | characterData (text : List Char)
  | instruction (mode : InstructionMode)
  | declaration (mode : DeclarationMode)
  | doctype (mode : DoctypeMode)
  | startTag (mode : TagMode)
  | endTag (text : List Char)
  /-- After the name in an end tag. -/
  | endTagGap (name : QName)
  deriving Repr

/-- The state of reading a document. -/
structure Reader where
  scanner : Scanner := {}
  mode : Mode := .content {}
  stage : Stage := .opening
  prolog : Prolog := {}
  /-- The open elements, the innermost first. -/
  frames : List Frame := []
  /-- The last root that has ended. -/
  root : Option Element := none
  /-- The text of an entity, to be read before what follows. -/
  insertion : List Char := []
  /-- The encoding that a declaration has just named. -/
  announced : Option String := none

namespace Reader

/-- The bindings where the reader is. -/
def bindings (r : Reader) : Bindings :=
  match r.frames with
  | [] => .standard
  | frame :: _ => frame.bindings

/-- Go on in another mode. -/
def goto (r : Reader) (mode : Mode) : Reader := { r with mode }

/-- Add a node to the innermost open element; outside the root it is dropped. -/
def push (r : Reader) (node : Node) : Reader :=
  match r.frames with
  | [] => r
  | frame :: frames =>
      { r with frames := { frame with children := node :: frame.children } :: frames }

/-- End an element: it becomes a child of the one around it, or the root. -/
def complete (r : Reader) (e : Element) : Reader :=
  match r.frames with
  | [] => { r with root := some e }
  | _ => r.push e.toNode

/-- End a run of text at markup. -/
def endRun (r : Reader) (run : Run) : Reader :=
  if run.blank || run.text.isEmpty then r else r.push (.text (String.ofList run.text.reverse))

/-- Read one character of text.  There is only white space outside the root. -/
def takeChar (r : Reader) (run : Run) (c : Char) : Option Reader :=
  if r.frames.isEmpty then
    if isSpace c then some { r with mode := .content run, stage := r.stage.past } else none
  else if r.prolog.version.allowsLiteral c then some (r.goto (.content (run.add c)))
  else none

/-- Begin the markup of a token, if it is one that begins markup and may stand here.  End
tags and character data belong into an element, and a document type before the first one. -/
def takeMarkup (r : Reader) : Token → Option Reader
  | .openTag => some { r with mode := .startTag (.name []), stage := .body }
  | .openEndTag => if r.frames.isEmpty then none else some (r.goto (.endTag []))
  | .openInstruction => some (r.goto (.instruction (.target [])))
  | .openComment => some { r with mode := .comment [], stage := r.stage.past }
  | .openCharacterData =>
      if r.frames.isEmpty then none else some (r.goto (.characterData []))
  | .openDoctype =>
      if r.stage = .body then none else some { r with mode := .doctype .start, stage := .body }
  | _ => none

/-- Is the token a mark that has no meaning in text? -/
def isIdleMark : Token → Bool
  | .quote _ | .equals | .semicolon | .closeTag | .closeEmptyTag | .closeInstruction
  | .closeComment => true
  | _ => false

/-- Read one token of text. -/
def takeContent (r : Reader) (run : Run) : Token → Option Reader
  | .char c => r.takeChar run c
  | .ampersand => if r.frames.isEmpty then none else some (r.goto (.reference run []))
  | token =>
      if isIdleMark token then
        if r.frames.isEmpty then none else some (r.goto (.content (run.addMarks token.text)))
      else (r.endRun run).takeMarkup token

/-- Read one token of a reference in text. -/
def takeReference (r : Reader) (run : Run) (name : List Char) : Token → Option Reader
  | .char c =>
      if continuesReference name c then some (r.goto (.reference run (c :: name))) else none
  | .semicolon =>
      match r.prolog.resolve? name.reverse with
      | some (.character x) => some (r.goto (.content (run.add x)))
      | some (.entity text) => some { r with mode := .content run.addEntity, insertion := text }
      | none => none
  | _ => none

/-- Read one token of a comment. -/
def takeComment (r : Reader) (text : List Char) : Token → Option Reader
  | .char c =>
      if r.prolog.version.allows c then some (r.goto (.comment (c :: text))) else none
  | .closeComment =>
      some ((r.push (.comment (String.ofList text.reverse))).goto (.content {}))
  | _ => none

/-- Read one token of character data.  A blank run right behind the section is dropped
only if the section is blank. -/
def takeCharacterData (r : Reader) (text : List Char) : Token → Option Reader
  | .char c =>
      if r.prolog.version.allows c then some (r.goto (.characterData (c :: text))) else none
  | .closeCharacterData =>
      some ((r.push (.text (String.ofList text.reverse))).goto
        (.content { blank := text.all isSpace }))
  | _ => none

/-- Read one token of an instruction.  A declaration stands at the very beginning. -/
def takeInstruction (r : Reader) (mode : InstructionMode) (token : Token) : Option Reader :=
  match mode.take r.prolog.version token with
  | none => none
  | some (.more mode) => some (r.goto (.instruction mode))
  | some (.done .plain) => some { r with mode := .content {}, stage := r.stage.past }
  | some (.done .declaration) =>
      if r.stage = .opening then some (r.goto (.declaration (.gap {} 0))) else none

/-- Read one token of a declaration. -/
def takeDeclaration (r : Reader) (mode : DeclarationMode) (token : Token) : Option Reader :=
  match mode.take token with
  | none => none
  | some (.more mode) => some (r.goto (.declaration mode))
  | some (.done d) =>
      some { r with
        mode := .content {}
        stage := .prolog
        prolog := { r.prolog with version := d.version }
        announced := d.encoding }

/-- Read one token of a document type. -/
def takeDoctype (r : Reader) (mode : DoctypeMode) (token : Token) : Option Reader :=
  (mode.take r.prolog token).map fun next =>
    { r with
      mode := next.mode.elim (.content {}) .doctype
      prolog := next.prolog
      insertion := next.insertion }

/-- Open the element of a start tag, or complete it if the tag says so. -/
def openElement (r : Reader) (head : TagHead) (isEmpty : Bool) : Option Reader :=
  let bindings := head.bindings ++ r.bindings
  if head.isBound bindings && head.isDistinct bindings then
    if isEmpty then
      some ((r.complete ⟨head.name.localName, head.localAttributes, []⟩).goto (.content {}))
    else
      let frame : Frame := { name := head.name, attributes := head.localAttributes, bindings }
      some { r with mode := .content {}, frames := frame :: r.frames }
  else none

/-- Read one token of a start tag. -/
def takeStartTag (r : Reader) (mode : TagMode) (token : Token) : Option Reader :=
  match mode.take r.prolog token with
  | none => none
  | some (.more mode) => some (r.goto (.startTag mode))
  | some (.done (head, isEmpty)) => r.openElement head isEmpty

/-- Close the innermost open element, whose name the end tag must repeat. -/
def closeElement (r : Reader) (name : QName) : Option Reader :=
  match r.frames with
  | [] => none
  | frame :: frames =>
      if frame.name = name then
        some (({ r with frames }.complete
          ⟨name.localName, frame.attributes, frame.children.reverse⟩).goto (.content {}))
      else none

/-- Read one token of an end tag. -/
def takeEndTag (r : Reader) (text : List Char) : Token → Option Reader
  | .char c =>
      if isNameChar c then some (r.goto (.endTag (c :: text)))
      else if isSpace c then
        (QName.ofChars? text.reverse).map fun name => r.goto (.endTagGap name)
      else none
  | .closeTag => (QName.ofChars? text.reverse).bind r.closeElement
  | _ => none

/-- Read one token after the name in an end tag. -/
def takeEndTagGap (r : Reader) (name : QName) : Token → Option Reader
  | .char c => if isSpace c then some r else none
  | .closeTag => r.closeElement name
  | _ => none

/-- Read one token. -/
def take (r : Reader) (token : Token) : Option Reader :=
  match r.mode with
  | .content run => r.takeContent run token
  | .reference run name => r.takeReference run name token
  | .comment text => r.takeComment text token
  | .characterData text => r.takeCharacterData text token
  | .instruction mode => r.takeInstruction mode token
  | .declaration mode => r.takeDeclaration mode token
  | .doctype mode => r.takeDoctype mode token
  | .startTag mode => r.takeStartTag mode token
  | .endTag text => r.takeEndTag text token
  | .endTagGap name => r.takeEndTagGap name token

/-- Read one character.  Of its tokens only the last can bring in an entity. -/
def step (r : Reader) (c : Char) : Option Reader :=
  (r.scanner.step c).bind fun (scanner, tokens) => tokens.foldlM take { r with scanner }

/-- How many entities may be read between two characters of the document itself. -/
def expansionLimit : Nat := 10

/-- How much entity text may be left over when a further entity is read. -/
def expansionSpace : Nat := 1000000

/-- Read characters, passing those that remain when an entity comes in between, with its
text in front of them, to `expand`. -/
def readWith (expand : List Char → Reader → Option Reader) : List Char → Reader → Option Reader
  | [], r => some r
  | c :: rest, r =>
      match r.step c with
      | none => none
      | some next =>
          if next.insertion.isEmpty then readWith expand rest next
          else if expansionSpace < rest.length then none
          else expand (next.insertion ++ rest) { next with insertion := [] }

/-- Read characters that bring in at most the given number of entities. -/
def readWithin : Nat → List Char → Reader → Option Reader
  | 0 => readWith fun _ _ => none
  | limit + 1 => readWith (readWithin limit)

/-- Read one character of the document itself. -/
def feed (r : Reader) (c : Char) : Option Reader := readWithin expansionLimit [c] r

/-- The root at the end of the document, where nothing may be open. -/
def finish (r : Reader) : Option Element :=
  match r.scanner.place, r.mode, r.frames with
  | .content, .content _, [] => r.root
  | _, _, _ => none

end Reader

/-- The state of reading the bytes of a document. -/
structure Session where
  decoder : Decoder := .fresh []
  /-- Was the last character a carriage return?  It has been passed on as a line feed. -/
  afterReturn : Bool := false
  reader : Reader := {}

namespace Session

/-- Pass on a character, all line ends as line feeds. -/
def feedChar (s : Session) (c : Char) : Option Session :=
  if c = '\n' ∧ s.afterReturn then some { s with afterReturn := false }
  else
    (s.reader.feed (if c = '\r' then '\n' else c)).map fun reader =>
      { s with reader, afterReturn := c == '\r' }

/-- Turn to the encoding that has been declared, if one has been. -/
def settle (s : Session) : Option Session :=
  match s.reader.announced with
  | none => some s
  | some name =>
      (Charset.ofName? name).bind fun charset =>
        (s.decoder.declare charset).map fun decoder =>
          { s with decoder, reader := { s.reader with announced := none } }

/-- Read one byte. -/
def feed (s : Session) (byte : UInt8) : Option Session :=
  match s.decoder.step byte with
  | none => none
  | some (decoder, none) => some { s with decoder }
  | some (decoder, some c) => ({ s with decoder }.feedChar c).bind settle

end Session

/-- The root of the document with these bytes, if they are a document. -/
def Element.ofBytes? (bytes : List UInt8) : Option Element :=
  (bytes.foldlM Session.feed {}).bind fun s =>
    if s.decoder.isComplete then s.reader.finish else none

/-- The root of the document with this text, if it is a document. -/
def Element.ofText? (text : String) : Option Element :=
  Element.ofBytes? text.toUTF8.toList

end SymbolFont.Markup
