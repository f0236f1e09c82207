/-
# Demands on the parts of trees

Whether a document can hold a tree, and what reading ensures of one, is a matter of its tags,
texts and comments, each by itself.  A tree that meets such demands meets them in all of its
elements, and edits that put in only what meets them do not change that.
-/

import Mathlib.Tactic.Common
import SymbolFont.Proofs.Markup.Node

namespace SymbolFont.Markup

/-- Demands on the parts of trees. -/
structure Demands where
  tag : String → Attributes → Bool
  text : List Char → Bool
  comment : List Char → Bool

namespace Node

mutual

/-- Do all parts of the node meet the demands? -/
def meets (d : Demands) : Node → Bool
  | .element name attributes children => d.tag name attributes && allMeet d children
  | .text content => d.text content.toList
  | .comment content => d.comment content.toList

/-- Do all parts of the nodes meet the demands? -/
def allMeet (d : Demands) : List Node → Bool
  | [] => true
  | node :: nodes => node.meets d && allMeet d nodes

end

variable {d : Demands}

theorem allMeet_iff {nodes : List Node} :
    allMeet d nodes = true ↔ ∀ node ∈ nodes, node.meets d = true := by
  induction nodes with
  | nil => simp [allMeet]
  | cons node nodes ih => simp [allMeet, ih]

/-- What follows for each kind of part from two demands follows for trees. -/
theorem allMeet_of_parts {p q : Demands} {nodes : List Node}
    (tag : ∀ name attributes, p.tag name attributes = true → q.tag name attributes = true →
      d.tag name attributes = true)
    (text : ∀ cs, p.text cs = true → q.text cs = true → d.text cs = true)
    (comment : ∀ cs, p.comment cs = true → q.comment cs = true → d.comment cs = true)
    (first : allMeet p nodes = true) (second : allMeet q nodes = true) :
    allMeet d nodes = true := by
  induction nodes using list_induction with
  | nil => rfl
  | text content nodes ih =>
      simp only [allMeet, meets, Bool.and_eq_true] at first second ⊢
      exact ⟨text _ first.1 second.1, ih first.2 second.2⟩
  | comment content nodes ih =>
      simp only [allMeet, meets, Bool.and_eq_true] at first second ⊢
      exact ⟨comment _ first.1 second.1, ih first.2 second.2⟩
  | element name attributes children nodes inside ih =>
      simp only [allMeet, meets, Bool.and_eq_true] at first second ⊢
      exact ⟨⟨tag _ _ first.1.1 second.1.1, inside first.1.2 second.1.2⟩, ih first.2 second.2⟩

/-- Changing the first element of a name into one that meets the demands. -/
theorem allMeet_modifyFirst {name : String} {f : Element → Element} {nodes : List Node}
    (keeps : ∀ e : Element, e.toNode.meets d = true → (f e).toNode.meets d = true)
    (all : allMeet d nodes = true) : allMeet d (modifyFirst name f nodes) = true := by
  induction nodes with
  | nil => rfl
  | cons node nodes ih =>
      obtain ⟨first, rest⟩ := Bool.and_eq_true_iff.mp all
      rcases node.element_or_not with ⟨e, rfl⟩ | none
      · by_cases found : e.name = name
        · rw [modifyFirst_cons_self f nodes found]
          exact Bool.and_eq_true_iff.mpr ⟨keeps e first, rest⟩
        · rw [modifyFirst_cons_of_ne f nodes found]
          exact Bool.and_eq_true_iff.mpr ⟨first, ih rest⟩
      · rw [modifyFirst_cons_of_none f nodes none]
        exact Bool.and_eq_true_iff.mpr ⟨first, ih rest⟩

/-- Replaced nodes come from either list. -/
theorem mem_replaceNamed {name : String} {nodes replacements : List Node} {node : Node}
    (mem : node ∈ replaceNamed name nodes replacements) : node ∈ nodes ∨ node ∈ replacements := by
  induction nodes generalizing replacements with
  | nil => exact .inl mem
  | cons first nodes ih =>
      rw [replaceNamed] at mem
      split at mem
      · split at mem
        · rcases List.mem_append.mp mem with taken | rest
          · exact .inr (List.mem_of_mem_take taken)
          · exact (ih rest).imp (List.mem_cons_of_mem _) List.mem_of_mem_drop
        · exact (List.mem_append.mp mem).symm.imp (List.mem_cons_of_mem _) id
      · rcases List.mem_cons.mp mem with rfl | rest
        · exact .inl List.mem_cons_self
        · exact (ih rest).imp (List.mem_cons_of_mem _) id

end Node

namespace Element

variable {d : Demands} {e : Element} {name : String}

/-- Do all parts of the element meet the demands? -/
def meets (d : Demands) (e : Element) : Bool := e.toNode.meets d

theorem meets_iff : e.meets d = true ↔
    d.tag e.name e.attributes = true ∧ ∀ node ∈ e.children, node.meets d = true := by
  rw [meets, toNode, Node.meets, Bool.and_eq_true, Node.allMeet_iff]

/-- What follows for each kind of part from two demands follows for a tree. -/
theorem meets_of_parts {p q : Demands}
    (tag : ∀ name attributes, p.tag name attributes = true → q.tag name attributes = true →
      d.tag name attributes = true)
    (text : ∀ cs, p.text cs = true → q.text cs = true → d.text cs = true)
    (comment : ∀ cs, p.comment cs = true → q.comment cs = true → d.comment cs = true)
    (first : e.meets p = true) (second : e.meets q = true) : e.meets d = true := by
  obtain ⟨first_tag, first_children⟩ := Bool.and_eq_true_iff.mp first
  obtain ⟨second_tag, second_children⟩ := Bool.and_eq_true_iff.mp second
  exact Bool.and_eq_true_iff.mpr ⟨tag _ _ first_tag second_tag,
    Node.allMeet_of_parts tag text comment first_children second_children⟩

/-- What is demanded of a tree is demanded of the elements in it. -/
theorem meets_of_mem_elements {x : Element} (met : e.meets d = true) (mem : x ∈ e.elements) :
    x.meets d = true := by
  obtain ⟨node, node_mem, found⟩ := List.mem_filterMap.mp mem
  rcases node.element_or_not with ⟨y, rfl⟩ | none
  · obtain rfl : y = x := by simpa using found
    exact (meets_iff.mp met).2 _ node_mem
  · rw [none] at found
    cases found

theorem meets_of_child? {x : Element} (met : e.meets d = true) (found : e.child? name = some x) :
    x.meets d = true :=
  meets_of_mem_elements met (List.mem_of_find?_eq_some found)

theorem meets_of_mem_named {x : Element} (met : e.meets d = true) (mem : x ∈ e.named name) :
    x.meets d = true :=
  meets_of_mem_elements met (List.mem_filter.mp mem).1

/-- Changing a child into one that meets the demands. -/
theorem meets_modifyChild {f : Element → Element}
    (keeps : ∀ x : Element, x.meets d = true → (f x).meets d = true) (met : e.meets d = true) :
    (e.modifyChild name f).meets d = true := by
  obtain ⟨tag, children⟩ := Bool.and_eq_true_iff.mp met
  exact Bool.and_eq_true_iff.mpr ⟨tag, Node.allMeet_modifyFirst keeps children⟩

/-- Replacing children by elements that meet the demands. -/
theorem meets_replaceNamed {replacements : List Element} (met : e.meets d = true)
    (all : ∀ r ∈ replacements, r.meets d = true) : (e.replaceNamed name replacements).meets d := by
  rw [meets_iff] at met ⊢
  have nodes : ∀ node ∈ replacements.map toNode, node.meets d = true := by
    intro node mem
    obtain ⟨r, r_mem, rfl⟩ := List.mem_map.mp mem
    exact all r r_mem
  refine ⟨met.1, fun node mem => ?_⟩
  simp only [replaceNamed] at mem
  split at mem
  · exact (Node.mem_replaceNamed mem).elim (met.2 node) (nodes node)
  · exact (List.mem_append.mp mem).elim (met.2 node) (nodes node)

end Element

end SymbolFont.Markup
