/-
# Laws of trees

The edits of a tree obey the laws of look-ups and updates: what was put in is found, the
later of two updates of one place wins, and updates of different places do not meet.
Changing all attribute values goes through each of them.
-/

import Mathlib.Tactic.Common
import SymbolFont.Markup.Node

namespace SymbolFont.Markup

namespace Node

/-- Induction on sibling nodes: an element is reached behind its children. -/
theorem list_induction {motive : List Node → Prop} (nil : motive [])
    (text : ∀ content nodes, motive nodes → motive (.text content :: nodes))
    (comment : ∀ content nodes, motive nodes → motive (.comment content :: nodes))
    (element : ∀ name attributes children nodes, motive children → motive nodes →
      motive (.element name attributes children :: nodes)) : ∀ nodes, motive nodes
  | [] => nil
  | .text content :: nodes =>
      text content nodes (list_induction nil text comment element nodes)
  | .comment content :: nodes =>
      comment content nodes (list_induction nil text comment element nodes)
  | .element name attributes children :: nodes =>
      element name attributes children nodes (list_induction nil text comment element children)
        (list_induction nil text comment element nodes)

/-- Correcting all nodes of a list is correcting each of them. -/
theorem mapValuesList_eq_map (f : String → String) (nodes : List Node) :
    mapValuesList f nodes = nodes.map (mapValues f) := by
  induction nodes with
  | nil => rfl
  | cons node nodes ih => rw [mapValuesList, List.map_cons, ih]

@[simp] theorem isElement_toNode (name : String) (e : Element) :
    e.toNode.isElement name = (e.name == name) := rfl

@[simp] theorem element?_toNode (e : Element) : e.toNode.element? = some e := rfl

@[simp] theorem isElement_mapValues (f : String → String) (name : String) (node : Node) :
    (node.mapValues f).isElement name = node.isElement name := by
  cases node <;> simp [mapValues, isElement]

theorem element?_mapValues (f : String → String) (node : Node) :
    (node.mapValues f).element? = node.element?.map (Element.mapValues f) := by
  cases node <;> simp [mapValues, element?, Element.mapValues]

@[simp] theorem toNode_mapValues (f : String → String) (e : Element) :
    (e.mapValues f).toNode = e.toNode.mapValues f := by
  simp [Element.toNode, Element.mapValues, mapValues]

theorem filterMap_map_toNode (es : List Element) :
    (es.map Element.toNode).filterMap element? = es := by
  induction es with
  | nil => rfl
  | cons e es ih => rw [List.map_cons, List.filterMap_cons, element?_toNode, ih]

theorem element_or_not (node : Node) : (∃ e : Element, node = e.toNode) ∨ node.element? = none := by
  cases node with
  | element own attributes children => exact .inl ⟨⟨own, attributes, children⟩, rfl⟩
  | text content => exact .inr rfl
  | comment content => exact .inr rfl

/-! ## The first element of a name -/

/-- The first element of a name. -/
def firstNamed? (name : String) (nodes : List Node) : Option Element :=
  (nodes.filterMap element?).find? (·.name == name)

section First

variable {name : String} {e : Element} {node : Node}

theorem firstNamed?_cons_self (nodes : List Node) (found : e.name = name) :
    firstNamed? name (e.toNode :: nodes) = some e := by
  rw [firstNamed?, List.filterMap_cons, element?_toNode,
    List.find?_cons_of_pos (by simpa using found)]

theorem firstNamed?_cons_of_ne (nodes : List Node) (differ : e.name ≠ name) :
    firstNamed? name (e.toNode :: nodes) = firstNamed? name nodes := by
  rw [firstNamed?, List.filterMap_cons, element?_toNode,
    List.find?_cons_of_neg (by simpa using differ)]
  rfl

theorem firstNamed?_cons_of_none (nodes : List Node) (none : node.element? = none) :
    firstNamed? name (node :: nodes) = firstNamed? name nodes := by
  rw [firstNamed?, List.filterMap_cons, none]
  rfl

variable (f : Element → Element)

theorem modifyFirst_cons_self (nodes : List Node) (found : e.name = name) :
    modifyFirst name f (e.toNode :: nodes) = (f e).toNode :: nodes := by
  rw [Element.toNode, modifyFirst, if_pos found]
  rfl

theorem modifyFirst_cons_of_ne (nodes : List Node) (differ : e.name ≠ name) :
    modifyFirst name f (e.toNode :: nodes) = e.toNode :: modifyFirst name f nodes := by
  rw [Element.toNode, modifyFirst, if_neg differ]

theorem modifyFirst_cons_of_none (nodes : List Node) (none : node.element? = none) :
    modifyFirst name f (node :: nodes) = node :: modifyFirst name f nodes := by
  cases node with
  | element own attributes children => cases none
  | text content => rfl
  | comment content => rfl

end First

/-! ## Replacing elements of a name -/

variable {name : String}

theorem replaceNamed_of_not_any {nodes : List Node} (replacements : List Node)
    (none : nodes.any (isElement name) = false) : replaceNamed name nodes replacements = nodes := by
  induction nodes with
  | nil => rfl
  | cons node nodes ih =>
      rw [List.any_cons, Bool.or_eq_false_iff] at none
      rw [replaceNamed, if_neg (by simp [none.1]), ih none.2]

/-- Nodes in front of the first element of the name stay where they are. -/
theorem replaceNamed_append_of_not_any {front : List Node} (nodes replacements : List Node)
    (none : front.any (isElement name) = false) :
    replaceNamed name (front ++ nodes) replacements =
      front ++ replaceNamed name nodes replacements := by
  induction front with
  | nil => rfl
  | cons node front ih =>
      rw [List.any_cons, Bool.or_eq_false_iff] at none
      rw [List.cons_append, replaceNamed, if_neg (by simp [none.1]), ih none.2, List.cons_append]

/-- Elements of the name in a row, with no more behind them, are replaced together. -/
theorem replaceNamed_row {row rest replacements : List Node}
    (named : ∀ node ∈ row, node.isElement name = true) (none : rest.any (isElement name) = false)
    (length : replacements.length = row.length) :
    replaceNamed name (row ++ rest) replacements = replacements ++ rest := by
  induction row generalizing replacements with
  | nil =>
      rw [List.eq_nil_of_length_eq_zero length]
      exact replaceNamed_of_not_any [] none
  | cons node row ih =>
      obtain ⟨replacement, replacements, rfl⟩ :=
        List.exists_cons_of_length_eq_add_one (length.trans List.length_cons)
      have first := named node List.mem_cons_self
      have row_named := fun node mem => named node (List.mem_cons_of_mem _ mem)
      have row_length : replacements.length = row.length := by simpa using length
      rw [List.cons_append, replaceNamed, if_pos first, List.drop_one, List.tail_cons,
        ih row_named row_length]
      cases row with
      | nil =>
          rw [List.eq_nil_of_length_eq_zero row_length, List.nil_append, none]
          rfl
      | cons next row =>
          rw [if_pos (by simp [row_named next List.mem_cons_self])]
          rfl

/-- The elements of the name are the replacements. -/
theorem filter_replaceNamed {nodes replacements : List Node} (any : nodes.any (isElement name))
    (named : ∀ node ∈ replacements, node.isElement name = true) :
    (replaceNamed name nodes replacements).filter (isElement name) = replacements := by
  induction nodes generalizing replacements with
  | nil => simp at any
  | cons node nodes ih =>
      rw [replaceNamed]
      by_cases first : node.isElement name = true
      · rw [if_pos first]
        by_cases more : nodes.any (isElement name) = true
        · have later : ∀ node ∈ replacements.drop 1, node.isElement name = true :=
            fun node mem => named node (List.mem_of_mem_drop mem)
          have taken : (replacements.take 1).filter (isElement name) = replacements.take 1 :=
            List.filter_eq_self.mpr fun node mem => named node (List.mem_of_mem_take mem)
          rw [if_pos more, List.filter_append, ih more later, taken, List.take_append_drop]
        · have none : nodes.filter (isElement name) = [] := by
            simpa [List.filter_eq_nil_iff] using more
          rw [if_neg more, List.filter_append, none, List.append_nil]
          exact List.filter_eq_self.mpr named
      · have more : nodes.any (isElement name) = true := by simpa [first] using any
        rw [if_neg first, List.filter_cons_of_neg first, ih more named]

/-- The later of two replacements wins. -/
theorem replaceNamed_replaceNamed {nodes earlier later : List Node}
    (named : ∀ node ∈ earlier, node.isElement name = true)
    (length : later.length = earlier.length) :
    replaceNamed name (replaceNamed name nodes earlier) later = replaceNamed name nodes later := by
  induction nodes generalizing earlier later with
  | nil => rfl
  | cons node nodes ih =>
      rw [replaceNamed, replaceNamed]
      by_cases first : node.isElement name = true
      · rw [if_pos first, if_pos first]
        by_cases more : nodes.any (isElement name) = true
        · rw [if_pos more, if_pos more]
          cases earlier with
          | nil =>
              have none : (replaceNamed name nodes []).any (isElement name) = false := by
                have empty : (replaceNamed name nodes []).filter (isElement name) = [] :=
                  filter_replaceNamed more fun node mem => absurd mem List.not_mem_nil
                simpa [List.filter_eq_nil_iff] using empty
              rw [List.eq_nil_of_length_eq_zero length]
              exact replaceNamed_of_not_any [] none
          | cons replacement earlier =>
              obtain ⟨newer, later, rfl⟩ :=
                List.exists_cons_of_length_eq_add_one (length.trans List.length_cons)
              have rest_named := fun node mem => named node (List.mem_cons_of_mem _ mem)
              have rest_length : later.length = earlier.length := by simpa using length
              have replaced := filter_replaceNamed more rest_named
              simp only [List.take_succ_cons, List.take_zero, List.drop_one, List.tail_cons,
                List.cons_append, List.nil_append]
              rw [replaceNamed, if_pos (named replacement List.mem_cons_self),
                ← ih rest_named rest_length]
              by_cases left : (replaceNamed name nodes earlier).any (isElement name) = true
              · rw [if_pos left]
                rfl
              · have none : earlier = [] := by
                  rw [← replaced]
                  simpa [List.filter_eq_nil_iff] using left
                subst none
                have settled : replaceNamed name (replaceNamed name nodes []) [] =
                    replaceNamed name nodes [] := replaceNamed_of_not_any [] (by simpa using left)
                rw [if_neg left, List.eq_nil_of_length_eq_zero rest_length, settled]
                rfl
        · rw [if_neg more, if_neg more]
          exact replaceNamed_row named (by simpa using more) length
      · rw [if_neg first, if_neg first, replaceNamed, if_neg first, ih named length]

theorem any_isElement_map_mapValues (f : String → String) (nodes : List Node) :
    (nodes.map (mapValues f)).any (isElement name) = nodes.any (isElement name) := by
  rw [List.any_map]
  congr 1
  funext node
  exact isElement_mapValues f name node

/-- Changing values goes through replacements. -/
theorem map_mapValues_replaceNamed (f : String → String) (nodes replacements : List Node) :
    (replaceNamed name nodes replacements).map (mapValues f) =
      replaceNamed name (nodes.map (mapValues f)) (replacements.map (mapValues f)) := by
  induction nodes generalizing replacements with
  | nil => rfl
  | cons node nodes ih =>
      rw [List.map_cons, replaceNamed, replaceNamed, isElement_mapValues,
        any_isElement_map_mapValues]
      by_cases first : node.isElement name = true
      · rw [if_pos first, if_pos first]
        by_cases more : nodes.any (isElement name) = true
        · rw [if_pos more, if_pos more, List.map_append, ih, List.map_take, List.map_drop]
        · rw [if_neg more, if_neg more, List.map_append]
      · rw [if_neg first, if_neg first, List.map_cons, ih]

end Node

namespace Element

variable {name other : String}

/-! ## Attributes -/

theorem lookup_cons_of_ne {key own : String} (value : String) (attributes : Attributes)
    (differ : key ≠ own) :
    List.lookup key ((own, value) :: attributes) = attributes.lookup key := by
  rw [List.lookup_cons, beq_false_of_ne differ]

theorem lookup_setFirst (key value : String) (attributes : Attributes) :
    (setFirst key value attributes).lookup key = some value := by
  induction attributes with
  | nil => simp [setFirst]
  | cons pair attributes ih =>
      obtain ⟨own, old⟩ := pair
      rw [setFirst]
      by_cases first : own = key
      · rw [if_pos first, first, List.lookup_cons_self]
      · rw [if_neg first, lookup_cons_of_ne _ _ (Ne.symm first), ih]

theorem lookup_setFirst_of_ne {key other : String} (value : String) (attributes : Attributes)
    (differ : other ≠ key) :
    (setFirst key value attributes).lookup other = attributes.lookup other := by
  induction attributes with
  | nil => exact lookup_cons_of_ne value [] differ
  | cons pair attributes ih =>
      obtain ⟨own, old⟩ := pair
      rw [setFirst]
      by_cases first : own = key
      · rw [if_pos first, first, lookup_cons_of_ne _ _ differ, lookup_cons_of_ne _ _ differ]
      · rw [if_neg first, List.lookup_cons, List.lookup_cons, ih]

/-- Setting an attribute brings in no other. -/
theorem mem_keys_of_mem_keys_setFirst {key value own : String} {attributes : Attributes}
    (mem : own ∈ (setFirst key value attributes).map Prod.fst) :
    own = key ∨ own ∈ attributes.map Prod.fst := by
  induction attributes with
  | nil => exact .inl (List.mem_singleton.mp mem)
  | cons pair attributes ih =>
      rw [setFirst] at mem
      split at mem
      · exact .inr mem
      · rcases List.mem_cons.mp mem with rfl | rest
        · exact .inr List.mem_cons_self
        · exact (ih rest).imp id (List.mem_cons_of_mem _)

theorem setFirst_setFirst (key earlier later : String) (attributes : Attributes) :
    setFirst key later (setFirst key earlier attributes) = setFirst key later attributes := by
  induction attributes with
  | nil => simp [setFirst]
  | cons pair attributes ih =>
      obtain ⟨own, old⟩ := pair
      by_cases first : own = key
      · simp only [setFirst, if_pos first]
      · simp only [setFirst, if_neg first, ih]

theorem map_setFirst (f : String → String) (key value : String) (attributes : Attributes) :
    (setFirst key value attributes).map (fun (key, value) => (key, f value)) =
      setFirst key (f value) (attributes.map fun (key, value) => (key, f value)) := by
  induction attributes with
  | nil => rfl
  | cons pair attributes ih =>
      obtain ⟨own, old⟩ := pair
      by_cases first : own = key
      · simp only [setFirst, if_pos first, List.map_cons]
      · simp only [setFirst, if_neg first, List.map_cons, ih]

@[simp] theorem attr?_setAttr (e : Element) (key value : String) :
    (e.setAttr key value).attr? key = some value := lookup_setFirst key value e.attributes

theorem attr?_setAttr_of_ne (e : Element) {key other : String} (value : String)
    (differ : other ≠ key) : (e.setAttr key value).attr? other = e.attr? other :=
  lookup_setFirst_of_ne value e.attributes differ

/-- The later of two values wins. -/
@[simp] theorem setAttr_setAttr (e : Element) (key earlier later : String) :
    (e.setAttr key earlier).setAttr key later = e.setAttr key later := by
  simp only [setAttr, setFirst_setFirst]

@[simp] theorem name_setAttr (e : Element) (key value : String) :
    (e.setAttr key value).name = e.name :=
  rfl

@[simp] theorem name_mapValues (f : String → String) (e : Element) :
    (e.mapValues f).name = e.name := rfl

theorem mapValues_setAttr (f : String → String) (e : Element) (key value : String) :
    (e.setAttr key value).mapValues f = (e.mapValues f).setAttr key (f value) := by
  simp only [mapValues, setAttr, map_setFirst]

theorem attr?_mapValues (f : String → String) (e : Element) (key : String) :
    (e.mapValues f).attr? key = (e.attr? key).map f := by
  obtain ⟨own, attributes, children⟩ := e
  show (attributes.map fun (key, value) => (key, f value)).lookup key =
    (attributes.lookup key).map f
  induction attributes with
  | nil => rfl
  | cons pair attributes ih =>
      obtain ⟨first, value⟩ := pair
      rw [List.map_cons, List.lookup_cons, List.lookup_cons, ih]
      cases key == first <;> rfl

/-! ## Children -/

theorem elements_mapValues (f : String → String) (e : Element) :
    (e.mapValues f).elements = e.elements.map (mapValues f) := by
  rw [elements, elements, mapValues, Node.mapValuesList_eq_map, List.filterMap_map,
    List.map_filterMap]
  congr 1
  funext node
  exact Node.element?_mapValues f node

theorem named_mapValues (f : String → String) (e : Element) (name : String) :
    (e.mapValues f).named name = (e.named name).map (mapValues f) := by
  rw [named, named, elements_mapValues, List.filter_map]
  rfl

theorem child?_mapValues (f : String → String) (e : Element) (name : String) :
    (e.mapValues f).child? name = (e.child? name).map (mapValues f) := by
  rw [child?, child?, elements_mapValues, List.find?_map]
  rfl

/-- The children of a name, as nodes. -/
theorem named_eq_filterMap (e : Element) (name : String) :
    e.named name = (e.children.filter (Node.isElement name)).filterMap Node.element? := by
  rw [named, elements, List.filter_filterMap, List.filterMap_filter]
  congr 1
  funext node
  cases node with
  | element own attributes children =>
      by_cases same : own = name <;> simp [Node.element?, Node.isElement, same]
  | text content => rfl
  | comment content => rfl

theorem mem_named {e x : Element} : x ∈ e.named name ↔ x.toNode ∈ e.children ∧ x.name = name := by
  rw [named, List.mem_filter, elements, List.mem_filterMap, beq_iff_eq]
  refine and_congr_left fun _ => ⟨?_, fun mem => ⟨_, mem, rfl⟩⟩
  rintro ⟨node, mem, is⟩
  rcases node.element_or_not with ⟨y, rfl⟩ | none
  · cases is
    exact mem
  · rw [none] at is
    cases is

/-- The children of the name are the replacements. -/
theorem named_replaceNamed (e : Element) {replacements : List Element}
    (named : ∀ r ∈ replacements, r.name = name) :
    (e.replaceNamed name replacements).named name = replacements := by
  have nodes_named : ∀ node ∈ replacements.map toNode, node.isElement name = true := by
    intro node mem
    obtain ⟨r, r_mem, rfl⟩ := List.mem_map.mp mem
    simp [named r r_mem]
  rw [named_eq_filterMap, Element.replaceNamed]
  by_cases any : e.children.any (Node.isElement name) = true
  · simp only [if_pos any]
    rw [Node.filter_replaceNamed any nodes_named, Node.filterMap_map_toNode]
  · have none : e.children.filter (Node.isElement name) = [] := by
      simpa [List.filter_eq_nil_iff] using any
    simp only [if_neg any]
    rw [List.filter_append, none, List.nil_append, List.filter_eq_self.mpr nodes_named,
      Node.filterMap_map_toNode]

/-- The later of two replacements wins. -/
theorem replaceNamed_replaceNamed (e : Element) {earlier later : List Element}
    (named : ∀ r ∈ earlier, r.name = name) (length : later.length = earlier.length) :
    (e.replaceNamed name earlier).replaceNamed name later = e.replaceNamed name later := by
  have nodes_named : ∀ node ∈ earlier.map toNode, node.isElement name = true := by
    intro node mem
    obtain ⟨r, r_mem, rfl⟩ := List.mem_map.mp mem
    simp [named r r_mem]
  have nodes_length : (later.map toNode).length =
      (earlier.map toNode).length := by simpa using length
  have still : ∀ {nodes : List Node}, nodes.filter (Node.isElement name) = earlier.map toNode →
      (nodes.any (Node.isElement name) = false ↔ earlier = []) := by
    intro nodes filtered
    rw [← List.map_eq_nil_iff (f := toNode), ← filtered]
    simp [List.filter_eq_nil_iff]
  by_cases any : e.children.any (Node.isElement name) = true
  · have replaced := still (Node.filter_replaceNamed any nodes_named)
    simp only [Element.replaceNamed, if_pos any]
    by_cases empty : earlier = []
    · have nothing : later = [] := by
        rw [empty] at length
        exact List.eq_nil_of_length_eq_zero length
      rw [replaced.mpr empty, empty, nothing]
      simp
    · have left : (Node.replaceNamed name e.children (earlier.map toNode)).any (Node.isElement name)
          = true := by simpa using mt replaced.mp empty
      rw [if_pos left, Node.replaceNamed_replaceNamed nodes_named nodes_length]
  · have none : e.children.any (Node.isElement name) = false := by simpa using any
    have row : Node.replaceNamed name (earlier.map toNode ++ []) (later.map toNode) =
        later.map toNode ++ [] := Node.replaceNamed_row nodes_named rfl nodes_length
    simp only [Element.replaceNamed, if_neg any]
    rw [List.any_append, none, Bool.false_or, Node.replaceNamed_append_of_not_any _ _ none,
      ← List.append_nil (earlier.map toNode), row]
    cases earlier with
    | nil =>
        rw [List.eq_nil_of_length_eq_zero length]
        simp
    | cons first earlier => simp [named first List.mem_cons_self]

/-- Changing values goes through replacements. -/
theorem mapValues_replaceNamed (f : String → String) (e : Element) (replacements : List Element) :
    (e.replaceNamed name replacements).mapValues f =
      (e.mapValues f).replaceNamed name (replacements.map (mapValues f)) := by
  have nodes : (replacements.map toNode).map (Node.mapValues f) =
      (replacements.map (mapValues f)).map toNode := by simp
  simp only [Element.replaceNamed, mapValues, Node.mapValuesList_eq_map,
    Node.any_isElement_map_mapValues, ← nodes, ← Node.map_mapValues_replaceNamed, ← List.map_append]
  congr 1
  split <;> rfl

/-! ## The first child of a name -/

/-- Does a change leave the names of elements alone? -/
def KeepsName (f : Element → Element) : Prop := ∀ e, (f e).name = e.name

theorem keepsName_replaceNamed (name : String) (replacements : List Element) :
    KeepsName fun e => e.replaceNamed name replacements := fun _ => rfl

theorem keepsName_modifyChild (name : String) (f : Element → Element) :
    KeepsName fun e => e.modifyChild name f := fun _ => rfl

theorem child?_modifyChild (e : Element) {f : Element → Element} (keeps : KeepsName f) :
    (e.modifyChild name f).child? name = (e.child? name).map f := by
  obtain ⟨own, attributes, nodes⟩ := e
  show Node.firstNamed? name (Node.modifyFirst name f nodes) = (Node.firstNamed? name nodes).map f
  induction nodes with
  | nil => rfl
  | cons node nodes ih =>
      rcases node.element_or_not with ⟨x, rfl⟩ | none
      · by_cases found : x.name = name
        · rw [Node.modifyFirst_cons_self f _ found, Node.firstNamed?_cons_self _ found,
            Node.firstNamed?_cons_self _ ((keeps x).trans found)]
          rfl
        · rw [Node.modifyFirst_cons_of_ne f _ found, Node.firstNamed?_cons_of_ne _ found,
            Node.firstNamed?_cons_of_ne _ found, ih]
      · rw [Node.modifyFirst_cons_of_none f _ none, Node.firstNamed?_cons_of_none _ none,
          Node.firstNamed?_cons_of_none _ none, ih]

theorem child?_modifyChild_of_ne (e : Element) {f : Element → Element} (keeps : KeepsName f)
    (differ : other ≠ name) : (e.modifyChild name f).child? other = e.child? other := by
  obtain ⟨own, attributes, nodes⟩ := e
  show Node.firstNamed? other (Node.modifyFirst name f nodes) = Node.firstNamed? other nodes
  induction nodes with
  | nil => rfl
  | cons node nodes ih =>
      rcases node.element_or_not with ⟨x, rfl⟩ | none
      · by_cases found : x.name = name
        · have here : x.name ≠ other := by rw [found]; exact Ne.symm differ
          have there : (f x).name ≠ other := by rwa [keeps x]
          rw [Node.modifyFirst_cons_self f _ found, Node.firstNamed?_cons_of_ne _ here,
            Node.firstNamed?_cons_of_ne _ there]
        · rw [Node.modifyFirst_cons_of_ne f _ found]
          by_cases here : x.name = other
          · rw [Node.firstNamed?_cons_self _ here, Node.firstNamed?_cons_self _ here]
          · rw [Node.firstNamed?_cons_of_ne _ here, Node.firstNamed?_cons_of_ne _ here, ih]
      · rw [Node.modifyFirst_cons_of_none f _ none, Node.firstNamed?_cons_of_none _ none,
          Node.firstNamed?_cons_of_none _ none, ih]

/-- Only what the first child of the name becomes matters. -/
theorem modifyChild_congr {e : Element} {f g : Element → Element}
    (same : ∀ x, e.child? name = some x → f x = g x) :
    e.modifyChild name f = e.modifyChild name g := by
  obtain ⟨own, attributes, nodes⟩ := e
  replace same : ∀ x, Node.firstNamed? name nodes = some x → f x = g x := same
  simp only [modifyChild, mk.injEq, true_and]
  induction nodes with
  | nil => rfl
  | cons node nodes ih =>
      rcases node.element_or_not with ⟨x, rfl⟩ | none
      · by_cases found : x.name = name
        · rw [Node.modifyFirst_cons_self f _ found, Node.modifyFirst_cons_self g _ found,
            same x (Node.firstNamed?_cons_self _ found)]
        · rw [Node.firstNamed?_cons_of_ne _ found] at same
          rw [Node.modifyFirst_cons_of_ne f _ found, Node.modifyFirst_cons_of_ne g _ found, ih same]
      · rw [Node.firstNamed?_cons_of_none _ none] at same
        rw [Node.modifyFirst_cons_of_none f _ none, Node.modifyFirst_cons_of_none g _ none, ih same]

/-- Two changes of one child are one. -/
theorem modifyChild_modifyChild (e : Element) {f : Element → Element} (keeps : KeepsName f)
    (g : Element → Element) :
    (e.modifyChild name f).modifyChild name g = e.modifyChild name fun x => g (f x) := by
  obtain ⟨own, attributes, nodes⟩ := e
  simp only [modifyChild, mk.injEq, true_and]
  induction nodes with
  | nil => rfl
  | cons node nodes ih =>
      rcases node.element_or_not with ⟨x, rfl⟩ | none
      · by_cases found : x.name = name
        · rw [Node.modifyFirst_cons_self f _ found, Node.modifyFirst_cons_self _ _ found,
            Node.modifyFirst_cons_self g _ ((keeps x).trans found)]
        · rw [Node.modifyFirst_cons_of_ne f _ found, Node.modifyFirst_cons_of_ne g _ found,
            Node.modifyFirst_cons_of_ne _ _ found, ih]
      · rw [Node.modifyFirst_cons_of_none f _ none, Node.modifyFirst_cons_of_none g _ none,
          Node.modifyFirst_cons_of_none _ _ none, ih]

/-- Changes of children of different names do not meet. -/
theorem modifyChild_comm (e : Element) {f g : Element → Element} (f_keeps : KeepsName f)
    (g_keeps : KeepsName g) (differ : other ≠ name) :
    (e.modifyChild name f).modifyChild other g = (e.modifyChild other g).modifyChild name f := by
  obtain ⟨own, attributes, nodes⟩ := e
  simp only [modifyChild, mk.injEq, true_and]
  induction nodes with
  | nil => rfl
  | cons node nodes ih =>
      rcases node.element_or_not with ⟨x, rfl⟩ | none
      · by_cases found : x.name = name
        · have here : x.name ≠ other := by rw [found]; exact Ne.symm differ
          have there : (f x).name ≠ other := by rwa [f_keeps x]
          rw [Node.modifyFirst_cons_self f _ found, Node.modifyFirst_cons_of_ne g _ there,
            Node.modifyFirst_cons_of_ne g _ here, Node.modifyFirst_cons_self f _ found]
        · rw [Node.modifyFirst_cons_of_ne f _ found]
          by_cases here : x.name = other
          · have there : (g x).name ≠ name := by rwa [g_keeps x]
            rw [Node.modifyFirst_cons_self g _ here, Node.modifyFirst_cons_self g _ here,
              Node.modifyFirst_cons_of_ne f _ there]
          · rw [Node.modifyFirst_cons_of_ne g _ here, Node.modifyFirst_cons_of_ne g _ here,
              Node.modifyFirst_cons_of_ne f _ found, ih]
      · rw [Node.modifyFirst_cons_of_none f _ none, Node.modifyFirst_cons_of_none g _ none,
          Node.modifyFirst_cons_of_none g _ none, Node.modifyFirst_cons_of_none f _ none, ih]

/-- Changing values goes through the change of a child. -/
theorem mapValues_modifyChild (h : String → String) (e : Element) {f g : Element → Element}
    (through : ∀ x, (f x).mapValues h = g (x.mapValues h)) :
    (e.modifyChild name f).mapValues h = (e.mapValues h).modifyChild name g := by
  obtain ⟨own, attributes, nodes⟩ := e
  simp only [modifyChild, mapValues, Node.mapValuesList_eq_map, mk.injEq, true_and]
  induction nodes with
  | nil => rfl
  | cons node nodes ih =>
      rcases node.element_or_not with ⟨x, rfl⟩ | none
      · have kept : (x.mapValues h).name = x.name := rfl
        rw [List.map_cons, ← Node.toNode_mapValues]
        by_cases found : x.name = name
        · rw [Node.modifyFirst_cons_self f _ found,
            Node.modifyFirst_cons_self g _ (kept.trans found),
            List.map_cons, ← Node.toNode_mapValues, through]
        · rw [Node.modifyFirst_cons_of_ne f _ found, Node.modifyFirst_cons_of_ne g _ (kept ▸ found),
            List.map_cons, ← Node.toNode_mapValues, ih]
      · have still : (node.mapValues h).element? = Option.none := by
          rw [Node.element?_mapValues, none]
          rfl
        rw [Node.modifyFirst_cons_of_none f _ none, List.map_cons, List.map_cons,
          Node.modifyFirst_cons_of_none g _ still, ih]

end Element

end SymbolFont.Markup
