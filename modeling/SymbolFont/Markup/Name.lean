/-
# Qualified names

A name in a document may carry a qualifier in front of a colon.  Qualifiers must be
bound to an address by a declaration in scope.  A reader keeps the local part only, but
two attributes of an element may not agree in local part and address.
-/

import SymbolFont.Markup.Char

namespace SymbolFont.Markup

/-- A name with an optional qualifier. -/
structure QName where
  qualifier : Option String
  localName : String
  deriving DecidableEq, Repr

/-- The qualifier that attributes use to declare qualifiers. -/
def declaringName : String := "xmlns"

/-- The qualifier that every document has. -/
def standardName : String := "xml"

/-- Read a name: one colon at most, with characters on both sides of it. -/
def QName.ofChars? (cs : List Char) : Option QName :=
  match cs with
  | [] => none
  | first :: _ =>
      if !isNameStart first || first == ':' || !cs.all isNameChar then none
      else
        let head := cs.takeWhile (· != ':')
        match cs.dropWhile (· != ':') with
        | [] => some ⟨none, String.ofList head⟩
        | _ :: tail =>
            if tail.isEmpty || tail.contains ':' then none
            else some ⟨some (String.ofList head), String.ofList tail⟩

/-- The two qualifiers with a meaning of their own, which no element may use. -/
def QName.isReserved (name : QName) : Bool :=
  name.qualifier == some standardName || name.qualifier == some declaringName

/-- The address of the standard qualifier. -/
def standardAddress : String := "http://www.w3.org/XML/1998/namespace"

/-- The address of the qualifier that declares others. -/
def declaringAddress : String := "http://www.w3.org/2000/xmlns/"

/-- Qualifiers with the addresses that they stand for, the nearest binding first. -/
abbrev Bindings := List (String × String)

/-- The bindings of every document. -/
def Bindings.standard : Bindings :=
  [(standardName, standardAddress), (declaringName, declaringAddress)]

/-- Is the name's qualifier bound, if it has one? -/
def QName.isBound (bindings : Bindings) (name : QName) : Bool :=
  name.qualifier.all fun qualifier => (bindings.lookup qualifier).isSome

/-- What a name means: its local part, together with the address of its qualifier. -/
def QName.meaning (bindings : Bindings) (name : QName) : Option String × String :=
  (name.qualifier.bind (List.lookup · bindings), name.localName)

end SymbolFont.Markup
