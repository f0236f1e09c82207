/-
# Shapes

What a program wants of a value: a list, or a structure with known fields.  A structure is a
table, or an array of its fields in their order.
-/

import SymbolFont.Toml.Value

namespace SymbolFont.Toml

/-- The values of the named fields of a table, which must have no others. -/
def Entries.fields? (names : List String) (es : Entries) : Option (List (Option Value)) :=
  if es.all fun entry => names.contains entry.1 then some (names.map es.find?) else none

/-- The values of the named fields of a structure. -/
def Value.fields? (names : List String) (v : Value) : Option (List (Option Value)) :=
  match v with
  | .array items => some ((List.range names.length).map (items[·]?))
  | _ => v.entries?.bind (Entries.fields? names)

/-- The items of a list, each read in the same way. -/
def Value.listOf? {α : Type} (item? : Value → Option α) (v : Value) : Option (List α) :=
  v.items?.bind fun items => items.mapM item?

/-- A field that may be missing. -/
def orDefault {α : Type} (field? : Value → Option α) (default : α) : Option Value → Option α
  | none => some default
  | some v => field? v

end SymbolFont.Toml
