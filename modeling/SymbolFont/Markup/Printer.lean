/-
# Writing documents

A document is written with an XML declaration, an indentation of two spaces for each open
element, and a line feed at its end.  Markup starts a new line unless text stands right
before it, so that no white space is ever added to text; an element without children is a
single tag.

The text comes as a list of pieces in the order in which they are written.
-/

import SymbolFont.Markup.Node
import SymbolFont.Text.Blank
import SymbolFont.Text.Sink

namespace SymbolFont.Markup

/-- How a character is written in an attribute value. -/
def escapeInValue : Char → List Char
  | '<' => "&lt;".toList
  | '>' => "&gt;".toList
  | '"' => "&quot;".toList
  | '\'' => "&apos;".toList
  | '&' => "&amp;".toList
  | '\n' => "&#xA;".toList
  | '\r' => "&#xD;".toList
  | c => [c]

/-- How a character is written in text. -/
def escapeInText : Char → List Char
  | '<' => "&lt;".toList
  | '>' => "&gt;".toList
  | '&' => "&amp;".toList
  | c => [c]

/-- An attribute with the space in front of it. -/
def attributePiece (pair : String × String) : String :=
  " " ++ pair.1 ++ "=\"" ++
    String.ofList (pair.2.toList.flatMap escapeInValue) ++ "\""

/-- Split up pairs of dashes, which may not stand in a comment. -/
def separateDashes : List Char → List Char
  | '-' :: '-' :: rest => '-' :: ' ' :: separateDashes rest
  | c :: rest => c :: separateDashes rest
  | [] => []

/-- A comment, set off by a space on each side that has no blank yet. -/
def commentPiece (content : String) : String :=
  let cs := content.toList
  let before := if cs.head?.any Text.isBlank then "" else " "
  let after := if cs.getLast?.any Text.isBlank then "" else " "
  "<!--" ++ before ++ String.ofList (separateDashes cs) ++ after ++ "-->"

/-- A new line at the given depth. -/
def newline (depth : Nat) : String := String.ofList ('\n' :: List.replicate (2 * depth) ' ')

/-- The start of a start tag with all attributes. -/
def tagPieces (name : String) (attributes : Attributes) : List String :=
  ("<" ++ name) :: attributes.map attributePiece

/-- Does the list end in text? -/
def endsInText (nodes : List Node) : Bool := nodes.getLast?.any Node.isText

mutual

/-- The pieces of a node inside `depth` open elements; `afterText` tells whether text
stands right before it. -/
def Node.pieces (depth : Nat) (afterText : Bool) : Node → List String
  | .element name attributes [] =>
      (if afterText then [] else [newline depth]) ++ tagPieces name attributes ++ [" />"]
  | .element name attributes (child :: children) =>
      (if afterText then [] else [newline depth]) ++ tagPieces name attributes ++ [">"] ++
        Node.piecesList (depth + 1) false (child :: children) ++
        (if endsInText (child :: children) then [] else [newline depth]) ++
        ["</" ++ name ++ ">"]
  | .text content => [String.ofList (content.toList.flatMap escapeInText)]
  | .comment content =>
      (if afterText then [] else [newline depth]) ++ [commentPiece content]

/-- The pieces of sibling nodes. -/
def Node.piecesList (depth : Nat) (afterText : Bool) : List Node → List String
  | [] => []
  | node :: nodes =>
      Node.pieces depth afterText node ++ Node.piecesList depth node.isText nodes

end

/-- The first line of every document, without its end. -/
def declarationPiece : String := "<?xml version=\"1.0\" encoding=\"UTF-8\"?>"

namespace Element

/-- The pieces of a document up to the end of its root. -/
def pieces (e : Element) : List String := declarationPiece :: e.toNode.pieces 0 false

/-- The document with this root. -/
def document (e : Element) : String := String.join e.pieces ++ "\n"

end Element

/-- Why a document could not be written. -/
inductive WriteFault where
  /-- The sink refused a piece of the document. -/
  | markup
  /-- The sink refused the line feed behind the root. -/
  | lineEnd
  deriving DecidableEq, Repr

/-- Write a document to a sink with the given room. -/
def Element.deliver (e : Element) (room : Nat) : Text.Delivery × Option WriteFault :=
  let tree := Text.deliverText room e.pieces
  match tree.room with
  | none => (tree, some .markup)
  | some room =>
      let finish := Text.deliverText room ["\n"]
      (⟨tree.taken ++ finish.taken, finish.room⟩,
        if finish.isComplete then none else some .lineEnd)

end SymbolFont.Markup
