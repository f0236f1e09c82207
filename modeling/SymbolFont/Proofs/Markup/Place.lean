/-
# Places of nodes

What an update of a tree leaves alone is told place by place: an element keeps its name, its
attributes and the number of its children, and each child is related to the node that was in
its place.  Elements of one name are counted from the front, so that the `k`-th of them is
replaced by the `k`-th of the new ones and the first is the one that is changed.
-/

import SymbolFont.Proofs.Markup.Node

namespace SymbolFont.Markup

namespace Node

/-- How many elements of the name stand in front of a place. -/
def rank (name : String) (siblings : List Node) (i : Nat) : Nat :=
  (siblings.take i).countP (isElement name)

/-- Is the node in the place the first element of the name? -/
def isFirst (name : String) (siblings : List Node) (i : Nat) : Bool :=
  siblings[i]?.any (isElement name) && rank name siblings i == 0

/-- Change the node if it is an element. -/
def mapElement (f : Element → Element) (node : Node) : Node :=
  match node.element? with
  | some e => (f e).toNode
  | none => node

/-- The node in a place has become the element of its rank if it is one of the name, and has
stayed as it is otherwise. -/
def Replaced (name : String) (elements : List Element) (siblings : List Node) (i : Nat)
    (node node' : Node) : Prop :=
  if node.isElement name then elements[rank name siblings i]?.map Element.toNode = some node'
  else node' = node

end Node

/-- What an element has become if nothing but the nodes in it was changed, each in its place. -/
structure Element.InPlace (became : List Node → Nat → Node → Node → Prop)
    (before after : Element) : Prop where
  name : after.name = before.name
  attributes : after.attributes = before.attributes
  length : after.children.length = before.children.length
  children : ∀ i node node', before.children[i]? = some node →
    after.children[i]? = some node' → became before.children i node node'

/-- The same of nodes, which have to be elements. -/
def Node.InPlace (became : List Node → Nat → Node → Node → Prop) (before after : Node) : Prop :=
  ∃ e e' : Element, before = e.toNode ∧ after = e'.toNode ∧ Element.InPlace became e e'

/-! ## Ranks -/

namespace Node

variable {name other : String}

@[simp] theorem rank_zero (siblings : List Node) : rank name siblings 0 = 0 := rfl

theorem rank_cons_succ (node : Node) (siblings : List Node) (i : Nat) :
    rank name (node :: siblings) (i + 1) =
      rank name siblings i + if node.isElement name then 1 else 0 := by
  rw [rank, List.take_succ_cons, List.countP_cons, rank]

theorem not_isElement {node : Node} (none : node.element? = none) :
    node.isElement name = false := by
  cases node with
  | element own attributes children => cases none
  | text content => rfl
  | comment content => rfl

/-- The element of a place is found among those of its name by its rank. -/
theorem getElem?_filter_rank {siblings : List Node} {i : Nat} {node : Node}
    (at_i : siblings[i]? = some node) (named : node.isElement name = true) :
    (siblings.filter (isElement name))[rank name siblings i]? = some node := by
  induction siblings generalizing i with
  | nil => simp at at_i
  | cons first siblings ih =>
      cases i with
      | zero =>
          obtain rfl := Option.some.inj (List.getElem?_cons_zero.symm.trans at_i)
          rw [List.filter_cons_of_pos named]
          rfl
      | succ i =>
          rw [List.getElem?_cons_succ] at at_i
          rw [rank_cons_succ]
          by_cases hit : first.isElement name = true
          · rw [List.filter_cons_of_pos hit, if_pos hit, List.getElem?_cons_succ, ih at_i]
          · rw [List.filter_cons_of_neg hit, if_neg hit, Nat.add_zero, ih at_i]

/-! ## Replacing elements of a name by as many -/

/-- An element of the name is replaced by the first of as many replacements as there are. -/
theorem replaceNamed_cons_self {node replacement : Node} {nodes replacements : List Node}
    (first : node.isElement name = true)
    (length : replacements.length = nodes.countP (isElement name)) :
    replaceNamed name (node :: nodes) (replacement :: replacements) =
      replacement :: replaceNamed name nodes replacements := by
  rw [replaceNamed, if_pos first]
  by_cases more : nodes.any (isElement name) = true
  · rw [if_pos more]
    rfl
  · have none : nodes.any (isElement name) = false := by simpa using more
    have nothing : replacements = [] := by
      apply List.eq_nil_of_length_eq_zero
      rw [length, List.countP_eq_zero]
      simpa using none
    rw [if_neg more, replaceNamed_of_not_any _ none, nothing]
    rfl

/-- Each place holds the replacement of its rank, or what it held before. -/
theorem getElem?_replaceNamed {nodes replacements : List Node}
    (length : replacements.length = nodes.countP (isElement name)) (i : Nat) :
    (replaceNamed name nodes replacements)[i]? = nodes[i]?.bind fun node =>
      if node.isElement name then replacements[rank name nodes i]? else some node := by
  induction nodes generalizing replacements i with
  | nil => rfl
  | cons node nodes ih =>
      by_cases first : node.isElement name = true
      · rw [List.countP_cons_of_pos first] at length
        obtain ⟨replacement, replacements, rfl⟩ := List.exists_cons_of_length_eq_add_one length
        have rest : replacements.length = nodes.countP (isElement name) := by simpa using length
        rw [replaceNamed_cons_self first rest]
        cases i with
        | zero => simp [first]
        | succ i =>
            rw [List.getElem?_cons_succ, List.getElem?_cons_succ, ih rest, rank_cons_succ,
              if_pos first]
            rfl
      · rw [List.countP_cons_of_neg first] at length
        rw [replaceNamed, if_neg first]
        cases i with
        | zero => simp [first]
        | succ i =>
            rw [List.getElem?_cons_succ, List.getElem?_cons_succ, ih length, rank_cons_succ,
              if_neg first]
            rfl

theorem length_replaceNamed {nodes replacements : List Node}
    (length : replacements.length = nodes.countP (isElement name)) :
    (replaceNamed name nodes replacements).length = nodes.length := by
  induction nodes generalizing replacements with
  | nil => rfl
  | cons node nodes ih =>
      by_cases first : node.isElement name = true
      · rw [List.countP_cons_of_pos first] at length
        obtain ⟨replacement, replacements, rfl⟩ := List.exists_cons_of_length_eq_add_one length
        have rest : replacements.length = nodes.countP (isElement name) := by simpa using length
        rw [replaceNamed_cons_self first rest, List.length_cons, ih rest, List.length_cons]
      · rw [List.countP_cons_of_neg first] at length
        rw [replaceNamed, if_neg first, List.length_cons, ih length, List.length_cons]

/-! ## Changing the first element of a name -/

@[simp] theorem mapElement_toNode (f : Element → Element) (e : Element) :
    mapElement f e.toNode = (f e).toNode := rfl

theorem isFirst_cons_succ (node : Node) (siblings : List Node) (i : Nat) :
    isFirst name (node :: siblings) (i + 1) =
      (!node.isElement name && isFirst name siblings i) := by
  rw [isFirst, isFirst, rank_cons_succ, List.getElem?_cons_succ]
  cases node.isElement name <;> simp

/-- Each place holds what it held before, but for the first element of the name. -/
theorem getElem?_modifyFirst (f : Element → Element) (nodes : List Node) (i : Nat) :
    (modifyFirst name f nodes)[i]? = nodes[i]?.map fun node =>
      if isFirst name nodes i then mapElement f node else node := by
  induction nodes generalizing i with
  | nil => rfl
  | cons node nodes ih =>
      rcases node.element_or_not with ⟨e, rfl⟩ | none
      · by_cases found : e.name = name
        · rw [modifyFirst_cons_self f _ found]
          cases i with
          | zero => simp [isFirst, found]
          | succ i => simp [isFirst_cons_succ, found]
        · rw [modifyFirst_cons_of_ne f _ found]
          cases i with
          | zero => simp [isFirst, found]
          | succ i => simp [isFirst_cons_succ, found, ih]
      · rw [modifyFirst_cons_of_none f _ none]
        cases i with
        | zero => simp [isFirst, not_isElement none]
        | succ i => simp [isFirst_cons_succ, not_isElement none, ih]

/-- Which element is the first of a name does not depend on what others are changed to. -/
theorem isFirst_modifyFirst {f : Element → Element} (keeps : Element.KeepsName f)
    (nodes : List Node) (i : Nat) :
    isFirst other (modifyFirst name f nodes) i = isFirst other nodes i := by
  induction nodes generalizing i with
  | nil => rfl
  | cons node nodes ih =>
      rcases node.element_or_not with ⟨e, rfl⟩ | none
      · by_cases found : e.name = name
        · rw [modifyFirst_cons_self f _ found]
          cases i with
          | zero => simp [isFirst, keeps e]
          | succ i => simp [isFirst_cons_succ, keeps e]
        · rw [modifyFirst_cons_of_ne f _ found]
          cases i with
          | zero => simp [isFirst]
          | succ i => simp [isFirst_cons_succ, ih]
      · rw [modifyFirst_cons_of_none f _ none]
        cases i with
        | zero => simp [isFirst]
        | succ i => simp [isFirst_cons_succ, ih]

/-- No place holds the first element of two names. -/
theorem not_isFirst_of_isFirst {siblings : List Node} {i : Nat} (first : isFirst name siblings i)
    (differ : other ≠ name) : isFirst other siblings i = false := by
  unfold isFirst at *
  cases at_i : siblings[i]? with
  | none => rfl
  | some node =>
      rw [at_i, Bool.and_eq_true] at first
      have named : node.isElement name = true := first.1
      cases node with
      | element own attributes children =>
          have own_eq : own = name := by simpa [isElement] using named
          have no : isElement other (.element own attributes children) = false := by
            simpa [isElement, own_eq] using Ne.symm differ
          simp [no]
      | text content => cases named
      | comment content => cases named

/-- The first element of a name is the one that look-ups find. -/
theorem exists_of_isFirst {nodes : List Node} {i : Nat} {node : Node}
    (first : isFirst name nodes i) (at_i : nodes[i]? = some node) :
    ∃ e : Element, node = e.toNode ∧ firstNamed? name nodes = some e := by
  induction nodes generalizing i with
  | nil => simp at at_i
  | cons head nodes ih =>
      cases i with
      | zero =>
          obtain rfl := Option.some.inj (List.getElem?_cons_zero.symm.trans at_i)
          rcases head.element_or_not with ⟨e, rfl⟩ | none
          · have found : e.name = name := by simpa [isFirst] using first
            exact ⟨e, rfl, firstNamed?_cons_self nodes found⟩
          · rw [isFirst, List.getElem?_cons_zero, Option.any_some, not_isElement none] at first
            cases first
      | succ i =>
          rw [isFirst_cons_succ, Bool.and_eq_true, Bool.not_eq_true'] at first
          rw [List.getElem?_cons_succ] at at_i
          obtain ⟨e, same, found⟩ := ih first.2 at_i
          refine ⟨e, same, ?_⟩
          rcases head.element_or_not with ⟨x, rfl⟩ | none
          · rw [firstNamed?_cons_of_ne nodes (by simpa using first.1), found]
          · rw [firstNamed?_cons_of_none nodes none, found]

end Node

namespace Element

variable {name : String}

/-! ## Children of a name -/

theorem map_toNode_named (e : Element) (name : String) :
    (e.named name).map toNode = e.children.filter (Node.isElement name) := by
  obtain ⟨own, attributes, children⟩ := e
  rw [named_eq_filterMap]
  show ((children.filter _).filterMap _).map toNode = children.filter _
  induction children with
  | nil => rfl
  | cons node children ih =>
      by_cases hit : node.isElement name = true
      · rcases node.element_or_not with ⟨x, rfl⟩ | none
        · rw [List.filter_cons_of_pos hit, List.filterMap_cons, Node.element?_toNode, List.map_cons,
            ih]
        · rw [Node.not_isElement none] at hit
          cases hit
      · rw [List.filter_cons_of_neg hit, ih]

theorem length_named (e : Element) (name : String) :
    (e.named name).length = e.children.countP (Node.isElement name) := by
  rw [← List.length_map (f := toNode), map_toNode_named, List.countP_eq_length_filter]

/-- The child in a place is found among those of its name by its rank. -/
theorem exists_named_rank {e : Element} {i : Nat} {node : Node} (at_i : e.children[i]? = some node)
    (named : node.isElement name = true) :
    ∃ x, (e.named name)[Node.rank name e.children i]? = some x ∧ node = x.toNode := by
  have found := Node.getElem?_filter_rank at_i named
  rw [← map_toNode_named, List.getElem?_map] at found
  obtain ⟨x, at_rank, same⟩ := Option.map_eq_some_iff.mp found
  exact ⟨x, at_rank, same.symm⟩

/-! ## Updates in place -/

variable {became became' : List Node → Nat → Node → Node → Prop} {e e' : Element}

/-- What nodes in their places have become may be told in another way. -/
theorem InPlace.imp (inPlace : InPlace became e e')
    (implies : ∀ i node node', e.children[i]? = some node → became e.children i node node' →
      became' e.children i node node') : InPlace became' e e' where
  name := inPlace.name
  attributes := inPlace.attributes
  length := inPlace.length
  children i node node' at_i at_i' := implies i node node' at_i
    (inPlace.children i node node' at_i at_i')

/-- An element has changed in place if it is told of each place what it now holds. -/
theorem inPlace_of_getElem? {change : Nat → Node → Node} {children : List Node}
    (places : ∀ i, children[i]? = e.children[i]?.map (change i)) :
    InPlace (fun _ i node node' => node' = change i node) e { e with children } where
  name := rfl
  attributes := rfl
  length := by
    have same : children = e.children.mapIdx change := by
      apply List.ext_getElem?
      intro i
      rw [places, List.getElem?_mapIdx]
    show children.length = _
    rw [same, List.length_mapIdx]
  children i node node' at_i at_i' := by
    have now : children[i]? = some (change i node) := by rw [places, at_i]; rfl
    exact Option.some.inj (at_i'.symm.trans now)

/-- Changing a child changes the first of its name and nothing else. -/
theorem inPlace_modifyChild (e : Element) (f : Element → Element) :
    InPlace (fun siblings i node node' =>
      node' = if Node.isFirst name siblings i then Node.mapElement f node else node)
      e (e.modifyChild name f) :=
  (inPlace_of_getElem? (Node.getElem?_modifyFirst f e.children)).imp fun _ _ _ _ same => same

/-- As many replacements as there are children of the name are put in the places of these. -/
theorem children_replaceNamed (e : Element) {replacements : List Element}
    (length : replacements.length = (e.named name).length) :
    (e.replaceNamed name replacements).children =
      Node.replaceNamed name e.children (replacements.map toNode) := by
  rw [replaceNamed]
  by_cases any : e.children.any (Node.isElement name) = true
  · simp only [if_pos any]
  · have none : e.children.any (Node.isElement name) = false := by simpa using any
    have nothing : replacements.map toNode = [] := by
      apply List.eq_nil_of_length_eq_zero
      rw [List.length_map, length, length_named, List.countP_eq_zero]
      simpa using none
    simp only [if_neg any, nothing, Node.replaceNamed_of_not_any _ none, List.append_nil]

/-- Replacing children by as many replaces each by the one of its rank and nothing else. -/
theorem inPlace_replaceNamed (e : Element) {replacements : List Element}
    (length : replacements.length = (e.named name).length) :
    InPlace (Node.Replaced name replacements) e (e.replaceNamed name replacements) := by
  have count : (replacements.map toNode).length = e.children.countP (Node.isElement name) := by
    rw [List.length_map, length, length_named]
  have children := e.children_replaceNamed length
  refine ⟨rfl, rfl, by rw [children, Node.length_replaceNamed count], ?_⟩
  intro i node node' at_i at_i'
  rw [children, Node.getElem?_replaceNamed count, at_i, Option.bind_some] at at_i'
  unfold Node.Replaced
  by_cases hit : node.isElement name = true
  · rw [if_pos hit] at at_i' ⊢
    rw [← at_i', List.getElem?_map]
  · rw [if_neg hit] at at_i' ⊢
    exact (Option.some.inj at_i').symm

end Element

end SymbolFont.Markup
