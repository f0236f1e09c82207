/-
# Quoted texts

A text stands between quotation marks of one kind, or between three of them on each side if
it runs over several lines.  In double marks a backslash begins an escape; single marks take
every character as it is.

Up to two marks may directly precede the three that end a text of several lines, so that its
end is known only at the character behind them.  That character is left to the caller.
-/

import SymbolFont.Text.Digits

namespace SymbolFont.Toml

/-- What a machine does with a character: go on, or finish with a result behind or before the
character. -/
inductive Outcome (σ α : Type) where
  | more (state : σ)
  | done (result : α)
  | doneBefore (result : α)

/-- A quoted text while it is read.  Texts are reversed. -/
inductive Quoted where
  /-- After one opening mark, and after two. -/
  | opened (mark : Char)
  | openedTwice (mark : Char)
  /-- In a text of one line. -/
  | line (mark : Char) (text : List Char)
  /-- In a text of several lines, behind the given number of marks.  A line end that comes
  first is dropped. -/
  | block (mark : Char) (text : List Char) (marks : Nat) (isFirst : Bool)
  /-- After a backslash. -/
  | escape (isBlock : Bool) (text : List Char)
  /-- Among the hexadecimal digits of a character, with those that are missing. -/
  | code (isBlock : Bool) (text : List Char) (missing : Nat) (value : Nat)
  /-- Among the blanks after a backslash at the end of a line. -/
  | fold (text : List Char) (isNextLine : Bool)
  deriving Repr

/-- May the character stand in comments and, but for marks and backslashes, in texts? -/
def isPrintable (c : Char) : Bool := c == '\t' || (' ' ≤ c && c != '\x7f')

/-- Is the character a space or tab? -/
def isBlank (c : Char) : Bool := c == ' ' || c == '\t'

/-- The character that a letter after a backslash stands for. -/
def escaped? : Char → Option Char
  | 'b' => some '\x08'
  | 't' => some '\t'
  | 'n' => some '\n'
  | 'f' => some '\x0c'
  | 'r' => some '\r'
  | '"' => some '"'
  | '\\' => some '\\'
  | _ => none

/-- The character with this number. -/
def charOf? (n : Nat) : Option Char :=
  if n.isValidChar then some (Char.ofNat n) else none

namespace Quoted

/-- Go on in a text of one line or of several. -/
def resume (isBlock : Bool) (text : List Char) : Quoted :=
  if isBlock then .block '"' text 0 false else .line '"' text

/-- Read one character of a text of one line. -/
def stepLine (mark : Char) (text : List Char) (c : Char) : Option (Outcome Quoted String) :=
  if c = mark then some (.done (String.ofList text.reverse))
  else if c = '\\' ∧ mark = '"' then some (.more (.escape false text))
  else if isPrintable c then some (.more (.line mark (c :: text)))
  else none

/-- Read one character of a text of several lines. -/
def stepBlock (mark : Char) (text : List Char) (marks : Nat) (isFirst : Bool) (c : Char) :
    Option (Outcome Quoted String) :=
  if c = mark then
    if marks < 5 then some (.more (.block mark text (marks + 1) false)) else none
  else if 3 ≤ marks then
    some (.doneBefore (String.ofList (List.replicate (marks - 3) mark ++ text).reverse))
  else
    let text := List.replicate marks mark ++ text
    if c = '\n' then some (.more (.block mark (if isFirst then text else c :: text) 0 false))
    else if c = '\\' ∧ mark = '"' then some (.more (.escape true text))
    else if isPrintable c then some (.more (.block mark (c :: text) 0 false))
    else none

/-- Read the character after a backslash. -/
def stepEscape (isBlock : Bool) (text : List Char) (c : Char) : Option (Outcome Quoted String) :=
  if c = 'u' then some (.more (.code isBlock text 4 0))
  else if c = 'U' then some (.more (.code isBlock text 8 0))
  else if isBlock ∧ isBlank c then some (.more (.fold text false))
  else if isBlock ∧ c = '\n' then some (.more (.fold text true))
  else (escaped? c).map fun x => .more (resume isBlock (x :: text))

/-- Read one digit of an escaped character. -/
def stepCode (isBlock : Bool) (text : List Char) (missing value : Nat) (c : Char) :
    Option (Outcome Quoted String) :=
  (Text.hexDigit? c).bind fun d =>
    let value := 16 * value + d
    if 1 < missing then some (.more (.code isBlock text (missing - 1) value))
    else (charOf? value).map fun x => .more (resume isBlock (x :: text))

/-- Read one character of a quoted text. -/
def step : Quoted → Char → Option (Outcome Quoted String)
  | .opened mark, c => if c = mark then some (.more (.openedTwice mark)) else stepLine mark [] c
  | .openedTwice mark, c =>
      some (if c = mark then .more (.block mark [] 0 true) else .doneBefore "")
  | .line mark text, c => stepLine mark text c
  | .block mark text marks isFirst, c => stepBlock mark text marks isFirst c
  | .escape isBlock text, c => stepEscape isBlock text c
  | .code isBlock text missing value, c => stepCode isBlock text missing value c
  | .fold text isNextLine, c =>
      if isBlank c then some (.more (.fold text isNextLine))
      else if c = '\n' then some (.more (.fold text true))
      else if isNextLine then stepBlock '"' text 0 false c
      else none

end Quoted

end SymbolFont.Toml
