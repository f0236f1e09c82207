/-
# Instructions

An instruction has a target and data up to `?>`.  It leaves nothing behind, but its target
must be a name and its data legal.  The target of a declaration is reserved, in letters of
either case.
-/

import SymbolFont.Markup.Name
import SymbolFont.Markup.Token

namespace SymbolFont.Markup

/-- Where in an instruction the reader is. -/
inductive InstructionMode where
  /-- In the target, reversed. -/
  | target (text : List Char)
  | data
  deriving DecidableEq, Repr

/-- What an instruction turns out to be. -/
inductive Instruction where
  /-- A complete instruction. -/
  | plain
  /-- The beginning of a declaration, up to the space behind its target. -/
  | declaration
  deriving DecidableEq, Repr

/-- Is the target of an instruction reserved? -/
def isReservedTarget (text : List Char) : Bool :=
  text.map Char.toLower == standardName.toList

/-- Read one character of the target. -/
def InstructionMode.takeTarget (text : List Char) (c : Char) :
    Option (Progress InstructionMode Instruction) :=
  if (if text.isEmpty then isNameStart c else isNameChar c) then
    some (.more (.target (c :: text)))
  else if text.isEmpty ∨ !isSpace c then none
  else if text.reverse = standardName.toList then some (.done .declaration)
  else if isReservedTarget text.reverse then none
  else some (.more .data)

/-- Read one token of an instruction. -/
def InstructionMode.take (v : Version) :
    InstructionMode → Token → Option (Progress InstructionMode Instruction)
  | .target text, .char c => takeTarget text c
  | .target text, .closeInstruction =>
      if text.isEmpty ∨ isReservedTarget text.reverse then none else some (.done .plain)
  | .target _, _ => none
  | .data, .char c => if v.allows c then some (.more .data) else none
  | .data, .closeInstruction => some (.done .plain)
  | .data, _ => some (.more .data)

end SymbolFont.Markup
