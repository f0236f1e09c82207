/-
# Values and tables

What a TOML document holds.  A table remembers its origin, because the origin decides who
may still add to it:

* a table with its own header takes dotted keys only under that header;
* a table that was made on the way to the table of a header may get its own header later;
* a table that was made on the way to the value of a dotted key takes further dotted keys
  but no header;
* a table in braces is closed.

`Entries.addPair`, `Entries.openTable` and `Entries.appendTable` are the three ways in which
the lines of a document change its tables.  They fail where the rules above, or an earlier
value, are in the way.
-/

namespace SymbolFont.Toml

/-- How a table that is not in braces came to be. -/
inductive Origin where
  /-- It has a header of its own, or is the document itself. -/
  | header
  /-- It lies on the way to the table of a header. -/
  | passage
  /-- It lies on the way to the value of a dotted key. -/
  | dotted
  deriving DecidableEq, Repr

/-- A value.  Numbers, truth values and dates are only recognised, not kept. -/
inductive Value where
  | text (content : String)
  | scalar
  | array (items : List Value)
  /-- A table in braces. -/
  | inline (entries : List (String × Value))
  | table (origin : Origin) (entries : List (String × Value))
  /-- The tables with one header in double brackets: the last one, and those before it, the
  latest first. -/
  | tables (last : List (String × Value)) (earlier : List (List (String × Value)))
  deriving Repr

/-- The content of a table, in the order of the document. -/
abbrev Entries := List (String × Value)

/-- A key with the tables on the way to it. -/
structure Path where
  way : List String := []
  key : String
  deriving DecidableEq, Repr

/-- The path as a list of keys. -/
def Path.keys (p : Path) : List String := p.way ++ [p.key]

namespace Entries

/-- The value of a key. -/
def find? (es : Entries) (key : String) : Option Value := es.lookup key

/-- Give a key that is there another value. -/
def set (es : Entries) (key : String) (value : Value) : Entries :=
  es.map fun entry => if entry.1 = key then (key, value) else entry

/-- Add a key that is not there yet. -/
def add (es : Entries) (key : String) (value : Value) : Option Entries :=
  match es.find? key with
  | none => some (es ++ [(key, value)])
  | some _ => none

/-- Change the table that a list of keys leads to.  Tables that are missing on the way are
made with the given origin; of several tables with one header the last one is entered.
Dotted keys do not lead into a table with a header of its own. -/
def alter (origin : Origin) (change : Origin → Entries → Option Entries) :
    List String → Origin → Entries → Option Entries
  | [], here, es => change here es
  | key :: way, _, es =>
      match es.find? key with
      | none =>
          (alter origin change way origin []).bind fun inner => es.add key (.table origin inner)
      | some (.table there inner) =>
          if origin = .dotted ∧ there = .header then none
          else
            (alter origin change way there inner).map fun inner =>
              es.set key (.table there inner)
      | some (.tables last earlier) =>
          (alter origin change way .header last).map fun last => es.set key (.tables last earlier)
      | some _ => none

/-- Add the value of a dotted key.  Its table must have been made by dotted keys, unless the
key has no dots. -/
def addDotted (path : Path) (value : Value) (here : Origin) (es : Entries) : Option Entries :=
  alter .dotted
    (fun there inner =>
      if path.way ≠ [] ∧ there ≠ .dotted then none else inner.add path.key value)
    path.way here es

/-- Add a pair of key and value to the table that a header leads to. -/
def addPair (es : Entries) (scope : List String) (path : Path) (value : Value) :
    Option Entries :=
  alter .passage (addDotted path value) scope .header es

/-- Give a table its header. -/
def openTable (es : Entries) (path : Path) : Option Entries :=
  alter .passage
    (fun _ inner =>
      match inner.find? path.key with
      | none => inner.add path.key (.table .header [])
      | some (.table .passage entries) => some (inner.set path.key (.table .header entries))
      | some _ => none)
    path.way .header es

/-- Begin a further table under a header in double brackets. -/
def appendTable (es : Entries) (path : Path) : Option Entries :=
  alter .passage
    (fun _ inner =>
      match inner.find? path.key with
      | none => inner.add path.key (.tables [] [])
      | some (.tables last earlier) => some (inner.set path.key (.tables [] (last :: earlier)))
      | some _ => none)
    path.way .header es

end Entries

namespace Value

/-- The text that a value is. -/
def text? : Value → Option String
  | .text content => some content
  | _ => none

/-- The content of a table, however it was written. -/
def entries? : Value → Option Entries
  | .inline es => some es
  | .table _ es => some es
  | _ => none

/-- The items of an array, also of one whose items are tables with headers. -/
def items? : Value → Option (List Value)
  | .array items => some items
  | .tables last earlier => some ((last :: earlier).reverse.map (.table .header))
  | _ => none

end Value

end SymbolFont.Toml
