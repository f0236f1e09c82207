/-
# Tokens of markup

A document is made of single characters and of the words that begin and end markup.
Which of them a character belongs to depends on what stands around it; the scanner tells.
-/

namespace SymbolFont.Markup

/-- The smallest parts of a document. -/
inductive Token where
  /-- A character without a meaning of its own where it stands. -/
  | char (c : Char)
  /-- A quotation mark of either kind. -/
  | quote (mark : Char)
  | equals
  | ampersand
  | semicolon
  | openTag
  | openEndTag
  | closeTag
  | closeEmptyTag
  | openInstruction
  | closeInstruction
  | openComment
  | closeComment
  | openCharacterData
  | closeCharacterData
  | openDoctype
  /-- The beginning of a declaration in a document type. -/
  | openDeclaration
  deriving DecidableEq, Repr

/-- The text of a token. -/
def Token.text : Token → List Char
  | .char c => [c]
  | .quote mark => [mark]
  | .equals => ['=']
  | .ampersand => ['&']
  | .semicolon => [';']
  | .openTag => ['<']
  | .openEndTag => ['<', '/']
  | .closeTag => ['>']
  | .closeEmptyTag => ['/', '>']
  | .openInstruction => ['<', '?']
  | .closeInstruction => ['?', '>']
  | .openComment => ['<', '!', '-', '-']
  | .closeComment => ['-', '-', '>']
  | .openCharacterData => ['<', '!', '[', 'C', 'D', 'A', 'T', 'A', '[']
  | .closeCharacterData => [']', ']', '>']
  | .openDoctype => ['<', '!', 'D', 'O', 'C', 'T', 'Y', 'P', 'E']
  | .openDeclaration => ['<', '!']

/-- The token of a character that stands for itself, where all marks have their meaning. -/
def Token.ofChar (c : Char) : Token :=
  if c = '<' then .openTag
  else if c = '>' then .closeTag
  else if c = '=' then .equals
  else if c = '&' then .ampersand
  else if c = ';' then .semicolon
  else if c = '"' ∨ c = '\'' then .quote c
  else .char c

/-- What a machine does with a token: go on, or finish with a result. -/
inductive Progress (σ α : Type) where
  | more (state : σ)
  | done (result : α)

end SymbolFont.Markup
