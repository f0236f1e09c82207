/-
# Element trees

A document is a tree of elements with ordered attributes, text and comments.  White
space between elements is no part of it.  Attributes are kept as a list, since a
document may hold one local name twice; look-ups take the first of that name.

The operations here select, edit and replace parts of a tree.  `Element.replaceNamed`
puts new elements in the places of old ones, and `Element.visitValues` runs through all
attribute values in document order.
-/

namespace SymbolFont.Markup

/-- Attribute names with their values, in document order. -/
abbrev Attributes := List (String × String)

/-- A node of a document. -/
inductive Node where
  | element (name : String) (attributes : Attributes) (children : List Node)
  | text (content : String)
  | comment (content : String)
  deriving Inhabited, Repr

/-- A node that is an element. -/
structure Element where
  name : String
  attributes : Attributes := []
  children : List Node := []
  deriving Inhabited, Repr

namespace Node

mutual

/-- Equality of nodes is decidable. -/
def decEq : (a b : Node) → Decidable (a = b)
  | .element name attributes children, .element name' attributes' children' =>
      match decEqList children children' with
      | .isTrue equal =>
          decidable_of_iff (name = name' ∧ attributes = attributes') (by simp [equal])
      | .isFalse differ => .isFalse (by simp [differ])
  | .text content, .text content' => decidable_of_iff (content = content') (by simp)
  | .comment content, .comment content' => decidable_of_iff (content = content') (by simp)
  | .element _ _ _, .text _ => .isFalse (by simp)
  | .element _ _ _, .comment _ => .isFalse (by simp)
  | .text _, .element _ _ _ => .isFalse (by simp)
  | .text _, .comment _ => .isFalse (by simp)
  | .comment _, .element _ _ _ => .isFalse (by simp)
  | .comment _, .text _ => .isFalse (by simp)

/-- Equality of node lists is decidable. -/
def decEqList : (as bs : List Node) → Decidable (as = bs)
  | [], [] => .isTrue rfl
  | [], _ :: _ => .isFalse (by simp)
  | _ :: _, [] => .isFalse (by simp)
  | a :: as, b :: bs =>
      match decEq a b, decEqList as bs with
      | .isTrue first, .isTrue rest => .isTrue (by rw [first, rest])
      | .isFalse first, _ => .isFalse (by simp [first])
      | _, .isFalse rest => .isFalse (by simp [rest])

end

instance : DecidableEq Node := decEq

/-- Is the node an element of the given name? -/
def isElement (name : String) : Node → Bool
  | .element own _ _ => own == name
  | _ => false

/-- The element that the node is, if it is one. -/
def element? : Node → Option Element
  | .element name attributes children => some ⟨name, attributes, children⟩
  | _ => none

/-- Is the node text? -/
def isText : Node → Bool
  | .text _ => true
  | _ => false

mutual

/-- Change every attribute value of the node and of all nodes below it. -/
def mapValues (f : String → String) : Node → Node
  | .element name attributes children =>
      .element name (attributes.map fun (key, value) => (key, f value))
        (mapValuesList f children)
  | .text content => .text content
  | .comment content => .comment content

/-- Change every attribute value of the nodes and of all nodes below them. -/
def mapValuesList (f : String → String) : List Node → List Node
  | [] => []
  | node :: nodes => node.mapValues f :: mapValuesList f nodes

end

/-- Run a stateful visitor over attribute values in their order. -/
def visitAttributes {σ : Type} (visit : σ → String → String × σ) :
    σ → Attributes → Attributes × σ
  | state, [] => ([], state)
  | state, (key, value) :: rest =>
      let (value, state) := visit state value
      let (rest, state) := visitAttributes visit state rest
      ((key, value) :: rest, state)

mutual

/-- Run a stateful visitor over the attribute values of the node: its own first, then
those of its children from left to right. -/
def visitValues {σ : Type} (visit : σ → String → String × σ) : σ → Node → Node × σ
  | state, .element name attributes children =>
      let (attributes, state) := visitAttributes visit state attributes
      let (children, state) := visitValuesList visit state children
      (.element name attributes children, state)
  | state, .text content => (.text content, state)
  | state, .comment content => (.comment content, state)

/-- Run a stateful visitor over the attribute values of the nodes in their order. -/
def visitValuesList {σ : Type} (visit : σ → String → String × σ) :
    σ → List Node → List Node × σ
  | state, [] => ([], state)
  | state, node :: nodes =>
      let (node, state) := node.visitValues visit state
      let (nodes, state) := visitValuesList visit state nodes
      (node :: nodes, state)

end

/-- Change the first element of the given name. -/
def modifyFirst (name : String) (f : Element → Element) : List Node → List Node
  | [] => []
  | .element own attributes children :: rest =>
      if own = name then
        let changed := f ⟨own, attributes, children⟩
        .element changed.name changed.attributes changed.children :: rest
      else .element own attributes children :: modifyFirst name f rest
  | node :: rest => node :: modifyFirst name f rest

/-- Put the replacements in the places of the elements of the given name, in order.
What is left of them takes the place of the last such element. -/
def replaceNamed (name : String) : List Node → List Node → List Node
  | [], _ => []
  | node :: rest, replacements =>
      if node.isElement name then
        if rest.any (isElement name) then
          replacements.take 1 ++ replaceNamed name rest (replacements.drop 1)
        else replacements ++ rest
      else node :: replaceNamed name rest replacements

end Node

namespace Element

/-- The element as a node. -/
def toNode (e : Element) : Node := .element e.name e.attributes e.children

instance : DecidableEq Element := fun a b =>
  decidable_of_iff (a.toNode = b.toNode) (by cases a; cases b; simp [toNode])

/-- The value of the first attribute of the given name. -/
def attr? (e : Element) (key : String) : Option String := e.attributes.lookup key

/-- Give the first attribute of the name a new value, or add one at the end. -/
def setFirst (key value : String) : Attributes → Attributes
  | [] => [(key, value)]
  | (own, old) :: rest =>
      if own = key then (own, value) :: rest else (own, old) :: setFirst key value rest

/-- Set an attribute; one that is there keeps its position. -/
def setAttr (e : Element) (key value : String) : Element :=
  { e with attributes := setFirst key value e.attributes }

/-- Add an attribute at the end, whether or not there is one of that name. -/
def addAttr (e : Element) (key value : String) : Element :=
  { e with attributes := e.attributes ++ [(key, value)] }

/-- The child elements, without text and comments. -/
def elements (e : Element) : List Element := e.children.filterMap Node.element?

/-- The child elements of the given name. -/
def named (e : Element) (name : String) : List Element :=
  e.elements.filter (·.name == name)

/-- The first child element of the given name. -/
def child? (e : Element) (name : String) : Option Element :=
  e.elements.find? (·.name == name)

/-- Change the first child element of the given name; without one, nothing. -/
def modifyChild (e : Element) (name : String) (f : Element → Element) : Element :=
  { e with children := Node.modifyFirst name f e.children }

/-- The element that a list of names leads to, from each to its first child of the next
name. -/
def descendant? (e : Element) : List String → Option Element
  | [] => some e
  | name :: path => (e.child? name).bind fun child => child.descendant? path

/-- Change the element that a list of names leads to; without one, nothing. -/
def modifyDescendant (f : Element → Element) : List String → Element → Element
  | [], e => f e
  | name :: path, e => e.modifyChild name (modifyDescendant f path)

/-- Replace the children of the given name, in order.  Each replacement takes the place
of the next such child, so that the nodes between them stay where they are.  Children
without a replacement are dropped; replacements without a child follow the last one, or
come at the end if there is none. -/
def replaceNamed (e : Element) (name : String) (replacements : List Element) : Element :=
  let nodes := replacements.map toNode
  { e with children :=
      if e.children.any (Node.isElement name) then Node.replaceNamed name e.children nodes
      else e.children ++ nodes }

/-- Change every attribute value of the element and of all elements below it. -/
def mapValues (f : String → String) (e : Element) : Element :=
  { e with
    attributes := e.attributes.map fun (key, value) => (key, f value)
    children := Node.mapValuesList f e.children }

/-- Run a stateful visitor over all attribute values in document order. -/
def visitValues {σ : Type} (visit : σ → String → String × σ) (state : σ) (e : Element) :
    Element × σ :=
  let (attributes, state) := Node.visitAttributes visit state e.attributes
  let (children, state) := Node.visitValuesList visit state e.children
  ({ e with attributes, children }, state)

end Element

end SymbolFont.Markup
