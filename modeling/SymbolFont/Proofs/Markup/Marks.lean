/-
# Marks

What is in a document besides the elements of some names: the tags of all other elements, texts
and comments, in document order.  The tags of elements of these names are passed over, but not
what is in them.

If something else is put in the places of elements of such a name, their marks give way to its
marks and all others stay.  So if it has no marks but those that were there, no mark is added,
and none is lost exactly if it has them all.
-/

import Mathlib.Data.List.Flatten
import Mathlib.Data.List.Forall2
import SymbolFont.Proofs.Markup.Place

namespace SymbolFont.Markup

/-- A tag, a text or a comment. -/
inductive Mark where
  | opening (name : String) (attributes : Attributes)
  | closing
  | text (content : String)
  | comment (content : String)
  deriving DecidableEq, Repr

namespace Node

mutual

/-- The marks of a node, but for the tags of elements of the names.  An empty text is none. -/
def marks (passed : List String) : Node → List Mark
  | .element name attributes children =>
      if name ∈ passed then marksList passed children
      else .opening name attributes :: (marksList passed children ++ [.closing])
  | .text content => if content = "" then [] else [.text content]
  | .comment content => [.comment content]

/-- The marks of nodes. -/
def marksList (passed : List String) : List Node → List Mark
  | [] => []
  | node :: nodes => node.marks passed ++ marksList passed nodes

end

/-- What stands in the place of a node when other nodes are put in the places of elements of the
name. -/
def expand (name : String) (inside : Element → List Node) (node : Node) : List Node :=
  match node.element? with
  | some e => if e.name = name then inside e else [node]
  | none => [node]

end Node

/-- Put nodes in the places of the children of the name. -/
def Element.expandNamed (name : String) (inside : Element → List Node) (e : Element) : Element :=
  { e with children := e.children.flatMap (Node.expand name inside) }

/-- The marks of each child. -/
def Element.marks (passed : List String) (e : Element) : List (List Mark) :=
  e.children.map (Node.marks passed)

/-- Do the nodes that are put in the place of an element have no marks but those in it? -/
def HasFewerMarks (passed : List String) (inside : Element → List Node) : Prop :=
  ∀ e : Element,
    (Node.marksList passed (inside e)).Sublist (Node.marksList passed e.children)

/-- If fewer items come from each, as many come from all only if as many come from each. -/
theorem flatMap_eq_flatMap_iff_of_sublist {α β : Type} {f g : α → List β} {xs : List α}
    (fewer : ∀ x ∈ xs, (f x).Sublist (g x)) :
    xs.flatMap f = xs.flatMap g ↔ ∀ x ∈ xs, f x = g x := by
  refine ⟨fun same => ?_, fun each => List.flatMap_congr each⟩
  induction xs with
  | nil => exact fun _ mem => absurd mem List.not_mem_nil
  | cons x xs ih =>
      rw [List.flatMap_cons, List.flatMap_cons] at same
      have first := fewer x List.mem_cons_self
      have rest_fewer := fun y mem => fewer y (List.mem_cons_of_mem x mem)
      have rest : (xs.flatMap f).Sublist (xs.flatMap g) := List.Sublist.flatMap_right xs rest_fewer
      have lengths := congrArg List.length same
      rw [List.length_append, List.length_append] at lengths
      have first_length := first.length_le
      have rest_length := rest.length_le
      obtain ⟨first_same, rest_same⟩ := List.append_inj same (by omega)
      intro y mem
      rcases List.mem_cons.mp mem with rfl | mem
      · exact first_same
      · exact ih rest_fewer rest_same y mem

namespace Node

variable {passed : List String} {name : String}

theorem marksList_eq_flatMap (nodes : List Node) :
    marksList passed nodes = nodes.flatMap (marks passed) := by
  induction nodes with
  | nil => rfl
  | cons node nodes ih => rw [marksList, List.flatMap_cons, ih]

/-- An element with other children has other marks exactly if the children have. -/
theorem marks_toNode_eq_iff {e : Element} {children : List Node} :
    ({ e with children } : Element).toNode.marks passed = e.toNode.marks passed ↔
      marksList passed children = marksList passed e.children := by
  simp only [Element.toNode, marks]
  split
  · exact Iff.rfl
  · simp

theorem marks_toNode_sublist {e : Element} {children : List Node}
    (fewer : (marksList passed children).Sublist (marksList passed e.children)) :
    (({ e with children } : Element).toNode.marks passed).Sublist (e.toNode.marks passed) := by
  simp only [Element.toNode, marks]
  split
  · exact fewer
  · exact (fewer.append_right _).cons_cons _

/-! ## Other nodes in the places of elements -/

section Expand

variable {inside : Element → List Node}

theorem expand_toNode_self {e : Element} (own : e.name = name) :
    expand name inside e.toNode = inside e := if_pos own

theorem expand_of_not_isElement {node : Node} (other : node.isElement name = false) :
    expand name inside node = [node] := by
  rcases node.element_or_not with ⟨e, rfl⟩ | none
  · exact if_neg (by simpa using other)
  · rw [expand, none]

/-- If nothing is put in the places of elements, the other nodes are left. -/
theorem flatMap_expand_nil (name : String) (nodes : List Node) :
    nodes.flatMap (expand name fun _ => []) = nodes.filter fun node => !node.isElement name := by
  induction nodes with
  | nil => rfl
  | cons node nodes ih =>
      rw [List.flatMap_cons, ih]
      by_cases own : node.isElement name = true
      · have nothing : expand name (fun _ => []) node = [] := by
          rcases node.element_or_not with ⟨x, rfl⟩ | none
          · exact expand_toNode_self (by simpa using own)
          · simp [not_isElement none] at own
        rw [nothing, List.filter_cons_of_neg (by simp [own])]
        rfl
      · have other : node.isElement name = false := by simpa using own
        rw [expand_of_not_isElement other, List.filter_cons_of_pos (by simp [other])]
        rfl

/-- Either the node is an element of the name, which is passed over, or it stays. -/
theorem marksList_expand (inside : Element → List Node) (mem : name ∈ passed) (node : Node) :
    (∃ x : Element, node = x.toNode ∧ x.name = name ∧
        marksList passed (expand name inside node) = marksList passed (inside x) ∧
        node.marks passed = marksList passed x.children) ∨
      node.isElement name = false ∧
        marksList passed (expand name inside node) = node.marks passed := by
  by_cases own : node.isElement name = true
  · rcases node.element_or_not with ⟨x, rfl⟩ | none
    · have named : x.name = name := by simpa using own
      refine .inl ⟨x, rfl, named, by rw [expand_toNode_self named], ?_⟩
      rw [Element.toNode, marks, if_pos (named ▸ mem)]
    · rw [not_isElement none] at own
      cases own
  · have other : node.isElement name = false := by simpa using own
    refine .inr ⟨other, ?_⟩
    rw [expand_of_not_isElement other, marksList, marksList, List.append_nil]

/-- What stands in the places of elements may be replaced together with what they are replaced
by. -/
theorem flatMap_expand_replaceNamed {inside' : Element → List Node} {nodes : List Node}
    {replacements : List Element}
    (same : List.Forall₂ (fun old new => new.name = name ∧ inside new = inside' old)
      ((nodes.filterMap element?).filter (·.name == name)) replacements) :
    (replaceNamed name nodes (replacements.map Element.toNode)).flatMap (expand name inside) =
      nodes.flatMap (expand name inside') := by
  induction nodes generalizing replacements with
  | nil =>
      cases same
      rfl
  | cons node nodes ih =>
      rcases node.element_or_not with ⟨x, rfl⟩ | none
      · rw [List.filterMap_cons, element?_toNode] at same
        by_cases own : x.name = name
        · rw [List.filter_cons_of_pos (by simpa using own)] at same
          cases same with
          | @cons _ new _ replacements first rest =>
              have length : (replacements.map Element.toNode).length =
                  nodes.countP (isElement name) := by
                rw [List.length_map, ← rest.length_eq]
                exact Element.length_named ⟨name, [], nodes⟩ name
              have opened : expand name inside new.toNode = expand name inside' x.toNode := by
                rw [expand_toNode_self first.1, expand_toNode_self own, first.2]
              rw [List.map_cons, replaceNamed_cons_self (by simpa using own) length,
                List.flatMap_cons, List.flatMap_cons, opened, ih rest]
        · rw [List.filter_cons_of_neg (by simpa using own)] at same
          rw [replaceNamed, if_neg (by simpa using own), List.flatMap_cons, List.flatMap_cons,
            ih same, expand_of_not_isElement (by simpa using own),
            expand_of_not_isElement (by simpa using own)]
      · rw [List.filterMap_cons, none] at same
        have other : node.isElement name = false := not_isElement none
        rw [replaceNamed, if_neg (by simp [other]), List.flatMap_cons, List.flatMap_cons, ih same,
          expand_of_not_isElement other, expand_of_not_isElement other]

end Expand

/-! ## Changing the first element of a name -/

section First

variable {f : Element → Element}

/-- The first element of a name may be changed unnoticed, and no other is changed. -/
theorem map_modifyFirst_eq_iff {α : Type} {view : Node → α} (nodes : List Node) :
    (modifyFirst name f nodes).map view = nodes.map view ↔
      ∀ e, firstNamed? name nodes = some e → view (f e).toNode = view e.toNode := by
  induction nodes with
  | nil => exact iff_of_true rfl fun _ found => nomatch found
  | cons node nodes ih =>
      rcases node.element_or_not with ⟨x, rfl⟩ | none
      · by_cases found : x.name = name
        · rw [modifyFirst_cons_self f _ found, firstNamed?_cons_self _ found]
          simp
        · rw [modifyFirst_cons_of_ne f _ found, firstNamed?_cons_of_ne _ found]
          simp [ih]
      · rw [modifyFirst_cons_of_none f _ none, firstNamed?_cons_of_none _ none]
        simp [ih]

theorem forall₂_marks_modifyFirst
    (fewer : ∀ e, ((f e).toNode.marks passed).Sublist (e.toNode.marks passed))
    (nodes : List Node) :
    List.Forall₂ List.Sublist ((modifyFirst name f nodes).map (marks passed))
      (nodes.map (marks passed)) := by
  have still (nodes : List Node) : List.Forall₂ List.Sublist (nodes.map (marks passed))
      (nodes.map (marks passed)) := List.forall₂_same.mpr fun _ _ => .refl _
  induction nodes with
  | nil => exact .nil
  | cons node nodes ih =>
      rcases node.element_or_not with ⟨x, rfl⟩ | none
      · by_cases found : x.name = name
        · rw [modifyFirst_cons_self f _ found]
          exact .cons (fewer x) (still nodes)
        · rw [modifyFirst_cons_of_ne f _ found]
          exact .cons (.refl _) ih
      · rw [modifyFirst_cons_of_none f _ none]
        exact .cons (.refl _) ih

end First

end Node

namespace Element

variable {passed : List String} {name : String} {e : Element}

section Expand

variable {inside : Element → List Node}

theorem keepsName_expandNamed (name : String) (inside : Element → List Node) :
    KeepsName fun e => e.expandNamed name inside := fun _ => rfl

theorem marksList_expandNamed : Node.marksList passed (e.expandNamed name inside).children =
    e.children.flatMap fun node => Node.marksList passed (Node.expand name inside node) := by
  simp only [expandNamed, Node.marksList_eq_flatMap, List.flatMap_assoc]

/-- What stands in the places of children may be replaced together with what they are replaced
by. -/
theorem expandNamed_replaceNamed {inside' : Element → List Node} {replacements : List Element}
    (same : List.Forall₂ (fun old new => new.name = name ∧ inside new = inside' old)
      (e.named name) replacements) :
    (e.replaceNamed name replacements).expandNamed name inside = e.expandNamed name inside' := by
  have children := e.children_replaceNamed same.length_eq.symm
  have opened := Node.flatMap_expand_replaceNamed same
  rw [← children] at opened
  exact congrArg (fun children => { e with children }) opened

/-- The marks of the children make up the marks in an element. -/
theorem marksList_eq_of_marks {e' : Element} (same : e'.marks passed = e.marks passed) :
    Node.marksList passed e'.children = Node.marksList passed e.children := by
  rw [Node.marksList_eq_flatMap, Node.marksList_eq_flatMap, List.flatMap_def, List.flatMap_def]
  exact congrArg List.flatten same

end Expand

end Element

namespace HasFewerMarks

variable {passed : List String} {name : String} {inside : Element → List Node}

theorem nil : HasFewerMarks passed fun _ => [] := fun _ => List.nil_sublist _

theorem children : HasFewerMarks passed Element.children := fun _ => .refl _

theorem expand (fewer : HasFewerMarks passed inside) (mem : name ∈ passed) (node : Node) :
    (Node.marksList passed (Node.expand name inside node)).Sublist (node.marks passed) := by
  rcases Node.marksList_expand inside mem node with ⟨x, rfl, -, inner, outer⟩ | ⟨-, same⟩
  · rw [inner, outer]
    exact fewer x
  · rw [same]

/-- With fewer marks in the places of children there are fewer marks. -/
theorem expandNamed (fewer : HasFewerMarks passed inside) (mem : name ∈ passed) :
    HasFewerMarks passed fun e => (e.expandNamed name inside).children := by
  intro e
  rw [Element.marksList_expandNamed, Node.marksList_eq_flatMap e.children]
  exact List.Sublist.flatMap_right _ fun node _ => fewer.expand mem node

theorem toNode_expandNamed (fewer : HasFewerMarks passed inside) (mem : name ∈ passed)
    (e : Element) :
    ((e.expandNamed name inside).toNode.marks passed).Sublist (e.toNode.marks passed) :=
  Node.marks_toNode_sublist (fewer.expandNamed mem e)

/-- Then there are as many only if there are as many in each place. -/
theorem expandNamed_eq_iff (fewer : HasFewerMarks passed inside) (mem : name ∈ passed)
    {e : Element} :
    Node.marksList passed (e.expandNamed name inside).children = Node.marksList passed e.children ↔
      ∀ x ∈ e.named name, Node.marksList passed (inside x) = Node.marksList passed x.children := by
  rw [Element.marksList_expandNamed, Node.marksList_eq_flatMap e.children,
    flatMap_eq_flatMap_iff_of_sublist fun node _ => fewer.expand mem node]
  constructor
  · intro each x x_mem
    obtain ⟨node_mem, own⟩ := Element.mem_named.mp x_mem
    rcases Node.marksList_expand inside mem x.toNode with ⟨y, is, -, inner, outer⟩ | ⟨other, -⟩
    · obtain rfl : x = y := Option.some.inj (congrArg Node.element? is)
      rw [← inner, ← outer]
      exact each _ node_mem
    · simp [own] at other
  · intro each node node_mem
    rcases Node.marksList_expand inside mem node with ⟨x, rfl, own, inner, outer⟩ | ⟨-, same⟩
    · rw [inner, outer]
      exact each x (Element.mem_named.mpr ⟨node_mem, own⟩)
    · exact same

end HasFewerMarks

namespace Element

variable {passed : List String} {name : String} {e : Element}

/-! ## Changing children -/

section Child

variable {f : Element → Element}

theorem marks_modifyChild_eq_iff :
    (e.modifyChild name f).marks passed = e.marks passed ↔
      ∀ x, e.child? name = some x → (f x).toNode.marks passed = x.toNode.marks passed :=
  Node.map_modifyFirst_eq_iff e.children

theorem marks_modifyChild_sublist
    (fewer : ∀ x, ((f x).toNode.marks passed).Sublist (x.toNode.marks passed)) :
    List.Forall₂ List.Sublist ((e.modifyChild name f).marks passed) (e.marks passed) :=
  Node.forall₂_marks_modifyFirst fewer e.children

end Child

end Element

/-! ## Losing marks twice -/

theorem forall₂_sublist_trans {as bs cs : List (List Mark)}
    (first : List.Forall₂ List.Sublist bs as) (last : List.Forall₂ List.Sublist cs bs) :
    List.Forall₂ List.Sublist cs as := by
  induction first generalizing cs with
  | nil => exact last
  | cons head tail ih =>
      cases last with
      | cons head' tail' => exact .cons (head'.trans head) (ih tail')

/-- If marks are lost on the way from one list to another by a third, the two differ. -/
theorem eq_iff_of_forall₂_sublist {as bs cs : List (List Mark)}
    (first : List.Forall₂ List.Sublist bs as) (last : List.Forall₂ List.Sublist cs bs) :
    cs = as ↔ bs = as ∧ cs = bs := by
  refine ⟨?_, fun ⟨one, other⟩ => other.trans one⟩
  rintro rfl
  have back : bs = cs := by
    induction first with
    | nil =>
        cases last
        rfl
    | cons head tail ih =>
        cases last with
        | cons head' tail' => rw [head.antisymm head', ih tail']
  exact ⟨back, back.symm⟩

end SymbolFont.Markup
