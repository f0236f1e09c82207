/-
# The values of a tree

What a change of all attribute values does to a tree is told by what it does to each value of
the tree.  The values are listed in document order, so they also tell one change from another.
-/

import Mathlib.Tactic.Common
import SymbolFont.Proofs.Markup.Node

namespace SymbolFont.Markup

namespace Node

mutual

/-- The attribute values of the node in document order: its own first, then those of its
children from left to right. -/
def values : Node → List String
  | .element _ attributes children => attributes.map Prod.snd ++ valuesList children
  | .text _ => []
  | .comment _ => []

/-- The attribute values of the nodes in document order. -/
def valuesList : List Node → List String
  | [] => []
  | node :: nodes => node.values ++ valuesList nodes

end

variable (f g : String → String)

theorem valuesList_mapValuesList (nodes : List Node) :
    valuesList (mapValuesList f nodes) = (valuesList nodes).map f := by
  induction nodes using list_induction with
  | nil => rfl
  | text content nodes ih => simpa [mapValuesList, mapValues, valuesList, values] using ih
  | comment content nodes ih => simpa [mapValuesList, mapValues, valuesList, values] using ih
  | element name attributes children nodes inside ih =>
      simp [mapValuesList, mapValues, valuesList, values, inside, ih]

/-- Changes behind one another are one change. -/
theorem mapValuesList_mapValuesList (nodes : List Node) :
    mapValuesList g (mapValuesList f nodes) = mapValuesList (fun v => g (f v)) nodes := by
  induction nodes using list_induction with
  | nil => rfl
  | text content nodes ih => simpa [mapValuesList, mapValues] using ih
  | comment content nodes ih => simpa [mapValuesList, mapValues] using ih
  | element name attributes children nodes inside ih =>
      simp [mapValuesList, mapValues, inside, ih]

/-- Two changes of attributes agree if they agree on the values. -/
theorem map_attributes_eq_iff (attributes : Attributes) :
    attributes.map (fun (key, value) => (key, f value)) =
        attributes.map (fun (key, value) => (key, g value)) ↔
      ∀ v ∈ attributes.map Prod.snd, f v = g v := by
  simp only [List.map_inj_left, List.forall_mem_map, Prod.mk.injEq, true_and]

/-- Two changes of nodes agree exactly if they agree on the values in them. -/
theorem mapValuesList_eq_iff (nodes : List Node) :
    mapValuesList f nodes = mapValuesList g nodes ↔ ∀ v ∈ valuesList nodes, f v = g v := by
  induction nodes using list_induction with
  | nil => simp [mapValuesList, valuesList]
  | text content nodes ih => simpa [mapValuesList, mapValues, valuesList, values] using ih
  | comment content nodes ih => simpa [mapValuesList, mapValues, valuesList, values] using ih
  | element name attributes children nodes inside ih =>
      simp only [mapValuesList, mapValues, List.cons.injEq, Node.element.injEq, true_and,
        map_attributes_eq_iff, inside, ih, valuesList, values, List.forall_mem_append]

end Node

namespace Element

/-- The attribute values of the element and of all elements below it, in document order. -/
def values (e : Element) : List String := e.attributes.map Prod.snd ++ Node.valuesList e.children

theorem values_mapValues (f : String → String) (e : Element) :
    (e.mapValues f).values = e.values.map f := by
  simp [values, mapValues, Node.valuesList_mapValuesList]

theorem mapValues_mapValues (f g : String → String) (e : Element) :
    (e.mapValues f).mapValues g = e.mapValues fun v => g (f v) := by
  simp [mapValues, Node.mapValuesList_mapValuesList]

/-- Two changes of an element agree exactly if they agree on its values. -/
theorem mapValues_eq_iff (f g : String → String) (e : Element) :
    e.mapValues f = e.mapValues g ↔ ∀ v ∈ e.values, f v = g v := by
  simp only [mapValues, mk.injEq, true_and, Node.map_attributes_eq_iff, Node.mapValuesList_eq_iff,
    values, List.forall_mem_append]

end Element

end SymbolFont.Markup
