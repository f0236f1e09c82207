/-
# Reading documents

A document is read by a machine that takes one character at a time.  It fails at the first
character that cannot continue a document.  Line ends are line feeds when the machine sees
them, and the last line has one too.

Arrays and tables in braces are kept on a stack while they are open.  Fewer than
`nestingLimit` of them may be open at a time.
-/

import SymbolFont.Toml.Key
import SymbolFont.Toml.Scalar

namespace SymbolFont.Toml

/-- An array or a table in braces that has not ended: its items, the last one first, or its
entries with the key of the next. -/
inductive Frame where
  | array (items : List Value)
  | inline (entries : Entries) (path : Path)
  deriving Repr

/-- The value that an array or a table is at its end. -/
def Frame.value : Frame → Value
  | .array items => .array items.reverse
  | .inline entries _ => .inline entries

/-- Where in a document the reader is. -/
inductive Mode where
  /-- At the beginning of a line. -/
  | fresh
  /-- After one opening bracket at the beginning of a line. -/
  | bracket
  /-- In a header, in single or double brackets. -/
  | header (isDouble : Bool) (key : KeyReader)
  /-- After the first of two closing brackets. -/
  | headerEnd (path : Path)
  /-- Behind all that a line may hold but a comment. -/
  | lineEnd
  /-- In a comment that ends a line, and in one in an array, with whether an item is over. -/
  | comment
  | arrayComment (isOver : Bool)
  | key (key : KeyReader)
  /-- Before a value, in it, and behind it. -/
  | value
  | text (text : Quoted)
  | word (word : List Char)
  /-- After a blank behind a date, which may go on with a time. -/
  | date (word : List Char)
  | behind
  /-- After an opening brace. -/
  | brace
  deriving Repr

/-- The state of reading a document. -/
structure Reader where
  mode : Mode := .fresh
  /-- The open arrays and tables in braces, the innermost first. -/
  frames : List Frame := []
  /-- The key of the pair that the line holds. -/
  path : Path := { key := "" }
  /-- The table of the last header. -/
  scope : List String := []
  root : Entries := []

/-- How many open arrays and tables in braces must not be reached. -/
def nestingLimit : Nat := 80

namespace Reader

/-- Go on in another mode. -/
def goto (r : Reader) (mode : Mode) : Reader := { r with mode }

/-- Open an array or a table in braces. -/
def nest (r : Reader) (mode : Mode) (frame : Frame) : Option Reader :=
  if r.frames.length + 1 < nestingLimit then some { r with mode, frames := frame :: r.frames }
  else none

/-- Put a value where it belongs: into the innermost open array or table, or into the
document. -/
def supply (r : Reader) (value : Value) : Option Reader :=
  match r.frames with
  | [] => (r.root.addPair r.scope r.path value).map fun root => { r with mode := .lineEnd, root }
  | .array items :: frames =>
      some { r with mode := .behind, frames := .array (value :: items) :: frames }
  | .inline entries path :: frames =>
      (entries.addDotted path value .header).map fun entries =>
        { r with mode := .behind, frames := .inline entries path :: frames }

/-- Close the innermost open array or table. -/
def close (r : Reader) : Option Reader :=
  match r.frames with
  | [] => none
  | frame :: frames => { r with frames }.supply frame.value

/-- Read one character at the beginning of a line. -/
def stepFresh (r : Reader) (c : Char) : Option Reader :=
  if isBlank c ∨ c = '\n' then some (r.goto .fresh)
  else if c = '#' then some (r.goto .comment)
  else if c = '[' then some (r.goto .bracket)
  else
    match KeyReader.step {} c with
    | some (.more key) => some (r.goto (.key key))
    | _ => none

/-- Read one character behind all that a line may hold but a comment. -/
def stepLineEnd (r : Reader) (c : Char) : Option Reader :=
  if isBlank c then some r
  else if c = '#' then some (r.goto .comment)
  else if c = '\n' then some (r.goto .fresh)
  else none

/-- Read one character of a header. -/
def stepHeader (r : Reader) (isDouble : Bool) (key : KeyReader) (c : Char) : Option Reader :=
  match key.step c with
  | some (.more key) => some (r.goto (.header isDouble key))
  | some (.doneBefore path) =>
      if c = ']' then
        if isDouble then some (r.goto (.headerEnd path))
        else
          (r.root.openTable path).map fun root =>
            { r with mode := .lineEnd, scope := path.keys, root }
      else none
  | _ => none

/-- Read one character of a key that a value follows. -/
def stepKey (r : Reader) (key : KeyReader) (c : Char) : Option Reader :=
  match key.step c with
  | some (.more key) => some (r.goto (.key key))
  | some (.doneBefore path) =>
      if c = '=' then
        match r.frames with
        | .inline entries _ :: frames =>
            some { r with mode := .value, frames := .inline entries path :: frames }
        | _ => some { r with mode := .value, path }
      else none
  | _ => none

/-- Read one character before a value.  In an array this may be on another line, or there may
be no further item. -/
def stepValue (r : Reader) (c : Char) : Option Reader :=
  if isBlank c then some r
  else if c = '"' ∨ c = '\'' then some (r.goto (.text (.opened c)))
  else if c = '[' then r.nest .value (.array [])
  else if c = '\x7b' then r.nest .brace (.inline [] { key := "" })
  else if isWordChar c then some (r.goto (.word [c]))
  else
    match r.frames with
    | .array _ :: _ =>
        if c = '\n' then some r
        else if c = '#' then some (r.goto (.arrayComment false))
        else if c = ']' then r.close
        else none
    | _ => none

/-- Read one character behind a value. -/
def stepBehind (r : Reader) (c : Char) : Option Reader :=
  match r.frames with
  | [] => r.stepLineEnd c
  | .array _ :: _ =>
      if isBlank c ∨ c = '\n' then some r
      else if c = '#' then some (r.goto (.arrayComment true))
      else if c = ',' then some (r.goto .value)
      else if c = ']' then r.close
      else none
  | .inline _ _ :: _ =>
      if isBlank c then some r
      else if c = ',' then some (r.goto (.key {}))
      else if c = '\x7d' then r.close
      else none

/-- Put a value where it belongs and read the character behind it. -/
def supplyBefore (r : Reader) (value : Value) (c : Char) : Option Reader :=
  (r.supply value).bind fun r => r.stepBehind c

/-- End a scalar and read the character behind it. -/
def endWord (r : Reader) (word : List Char) (c : Char) : Option Reader :=
  if isScalar word.reverse then r.supplyBefore .scalar c else none

/-- Read one character of a text. -/
def stepText (r : Reader) (text : Quoted) (c : Char) : Option Reader :=
  match text.step c with
  | none => none
  | some (.more text) => some (r.goto (.text text))
  | some (.done content) => r.supply (.text content)
  | some (.doneBefore content) => r.supplyBefore (.text content) c

/-- Read one character after an opening brace. -/
def stepBrace (r : Reader) (c : Char) : Option Reader :=
  if isBlank c then some r
  else if c = '\x7d' then r.close
  else
    match KeyReader.step {} c with
    | some (.more key) => some (r.goto (.key key))
    | _ => none

/-- Read one character. -/
def step (r : Reader) (c : Char) : Option Reader :=
  match r.mode with
  | .fresh => r.stepFresh c
  | .bracket => if c = '[' then some (r.goto (.header true {})) else r.stepHeader false {} c
  | .header isDouble key => r.stepHeader isDouble key c
  | .headerEnd path =>
      if c = ']' then
        (r.root.appendTable path).map fun root =>
          { r with mode := .lineEnd, scope := path.keys, root }
      else none
  | .lineEnd => r.stepLineEnd c
  | .comment =>
      if c = '\n' then some (r.goto .fresh) else if isPrintable c then some r else none
  | .arrayComment isOver =>
      if c = '\n' then some (r.goto (if isOver then .behind else .value))
      else if isPrintable c then some r
      else none
  | .key key => r.stepKey key c
  | .value => r.stepValue c
  | .text text => r.stepText text c
  | .word word =>
      if isWordChar c then some (r.goto (.word (c :: word)))
      else if c = ' ' ∧ isDate word.reverse then some (r.goto (.date word))
      else r.endWord word c
  | .date word =>
      if c.isDigit then some (r.goto (.word (c :: ' ' :: word)))
      else r.endWord word c
  | .behind => r.stepBehind c
  | .brace => r.stepBrace c

/-- The document that has been read, if nothing is open. -/
def finish (r : Reader) : Option Entries :=
  match r.mode with
  | .fresh => some r.root
  | _ => none

end Reader

/-- The text with all line ends as line feeds.  A carriage return must belong to one. -/
def unifyLineEnds : List Char → Option (List Char)
  | [] => some []
  | '\r' :: '\n' :: rest => (unifyLineEnds rest).map ('\n' :: ·)
  | '\r' :: _ => none
  | c :: rest => (unifyLineEnds rest).map (c :: ·)

/-- The text without a byte order mark. -/
def withoutMark : List Char → List Char
  | '\ufeff' :: rest => rest
  | rest => rest

/-- The table that a document with this text is. -/
def Entries.ofText? (text : String) : Option Entries :=
  (unifyLineEnds (withoutMark text.toList)).bind fun characters =>
    ((characters ++ ['\n']).foldlM Reader.step {}).bind Reader.finish

end SymbolFont.Toml
