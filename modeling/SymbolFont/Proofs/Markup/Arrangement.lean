/-
# Replacing children by any number of others

When the children of a name are replaced there may be fewer replacements than such children, or
more.  What becomes of the children is told by an arrangement, in which each node is marked as kept
or as put in: the other children are kept, each replacement has the place of the child of its rank,
and those without such a child follow the last one.
-/

import SymbolFont.Proofs.Markup.Place

namespace SymbolFont.Markup

/-- The nodes that are no elements of the name. -/
def Node.others (name : String) (nodes : List Node) : List Node :=
  nodes.filter fun node => !node.isElement name

/-- A child behind a replacement: a node that was there before, or an element that is new. -/
inductive Placed where
  | kept (node : Node)
  | put (replacement : Element)

namespace Placed

/-- The child without the mark. -/
def node : Placed → Node
  | .kept node => node
  | .put replacement => replacement.toNode

/-- The node that was there before. -/
def kept? : Placed → Option Node
  | .kept node => some node
  | .put _ => none

/-- The element that is new. -/
def put? : Placed → Option Element
  | .kept _ => none
  | .put replacement => some replacement

end Placed

/-- How children come to stand when those of a name are replaced. -/
structure Arranges (name : String) (children : List Node) (replacements : List Element)
    (arrangement : List Placed) : Prop where
  /-- The other children are kept in their order, and those of the name are not. -/
  kept : arrangement.filterMap Placed.kept? = Node.others name children
  /-- Each replacement is put in once, in their order. -/
  put : arrangement.filterMap Placed.put? = replacements
  /-- A replacement has the same nodes in front of it and behind it as the child of its rank. -/
  inPlace : ∀ (i : Nat) (child : Node) (replacement : Element),
    (children.filter (Node.isElement name))[i]? = some child →
    replacements[i]? = some replacement →
    ∃ before after front back, children = before ++ child :: after ∧
      before.countP (Node.isElement name) = i ∧
      arrangement = front ++ .put replacement :: back ∧
      front.filterMap Placed.put? = replacements.take i ∧
      front.filterMap Placed.kept? = Node.others name before ∧
      back.filterMap Placed.kept? = Node.others name after
  /-- From the rank of the last child of the name on, replacements follow one another in its
  place. -/
  surplus : ∀ child, (children.filter (Node.isElement name)).getLast? = some child →
    ∃ before after front, children = before ++ child :: after ∧
      before.countP (Node.isElement name) + 1 = children.countP (Node.isElement name) ∧
      front.filterMap Placed.kept? = Node.others name before ∧
      arrangement = front ++
        (replacements.drop (before.countP (Node.isElement name))).map .put ++ after.map .kept
  /-- Without a child of the name, all replacements come behind all children. -/
  atEnd : children.filter (Node.isElement name) = [] →
    arrangement = children.map .kept ++ replacements.map .put

namespace Placed

variable {name : String}

@[simp] theorem filterMap_kept?_map_kept (nodes : List Node) :
    (nodes.map kept).filterMap kept? = nodes := by
  rw [List.filterMap_map]
  exact List.filterMap_some

@[simp] theorem filterMap_kept?_map_put (replacements : List Element) :
    (replacements.map put).filterMap kept? = [] := by
  rw [List.filterMap_map]
  exact List.filterMap_eq_nil_iff.mpr fun _ _ => rfl

@[simp] theorem filterMap_put?_map_kept (nodes : List Node) :
    (nodes.map kept).filterMap put? = [] := by
  rw [List.filterMap_map]
  exact List.filterMap_eq_nil_iff.mpr fun _ _ => rfl

@[simp] theorem filterMap_put?_map_put (replacements : List Element) :
    (replacements.map put).filterMap put? = replacements := by
  rw [List.filterMap_map]
  exact List.filterMap_some

theorem map_node_map_kept (nodes : List Node) : (nodes.map kept).map node = nodes := by
  rw [List.map_map]
  exact List.map_id nodes

theorem map_node_map_put (replacements : List Element) :
    (replacements.map put).map node = replacements.map Element.toNode := by
  rw [List.map_map]
  rfl

/-! ## Filling places -/

/-- Put the replacements in the places of the elements of the name, one in each; places that
are left over are given up. -/
def fill (name : String) : List Node → List Element → List Placed
  | [], _ => []
  | node :: nodes, replacements =>
      if node.isElement name then
        (replacements.take 1).map put ++ fill name nodes (replacements.drop 1)
      else kept node :: fill name nodes replacements

/-- Places are filled from the front. -/
theorem fill_append (front back : List Node) (replacements : List Element) :
    fill name (front ++ back) replacements =
      fill name front replacements ++
        fill name back (replacements.drop (front.countP (Node.isElement name))) := by
  induction front generalizing replacements with
  | nil => rfl
  | cons node front ih =>
      by_cases hit : node.isElement name = true
      · rw [List.cons_append, fill, fill, if_pos hit, if_pos hit, ih, List.countP_cons_of_pos hit,
          List.drop_drop, Nat.add_comm, List.append_assoc]
      · rw [List.cons_append, fill, fill, if_neg hit, if_neg hit, ih, List.countP_cons_of_neg hit,
          List.cons_append]

theorem filterMap_kept?_fill (nodes : List Node) (replacements : List Element) :
    (fill name nodes replacements).filterMap kept? = Node.others name nodes := by
  induction nodes generalizing replacements with
  | nil => rfl
  | cons node nodes ih =>
      by_cases hit : node.isElement name = true
      · rw [fill, if_pos hit, List.filterMap_append, filterMap_kept?_map_put, ih, Node.others,
          Node.others, List.filter_cons_of_neg (by simp [hit]), List.nil_append]
      · rw [fill, if_neg hit, List.filterMap_cons, ih, Node.others, Node.others,
          List.filter_cons_of_pos (by simp [hit])]
        rfl

theorem filterMap_put?_fill (nodes : List Node) (replacements : List Element) :
    (fill name nodes replacements).filterMap put? =
      replacements.take (nodes.countP (Node.isElement name)) := by
  induction nodes generalizing replacements with
  | nil => rfl
  | cons node nodes ih =>
      by_cases hit : node.isElement name = true
      · rw [fill, if_pos hit, List.filterMap_append, filterMap_put?_map_put, ih,
          List.countP_cons_of_pos hit, Nat.add_comm, ← List.take_add]
      · rw [fill, if_neg hit, List.filterMap_cons, ih, List.countP_cons_of_neg hit]
        rfl

/-- Replacing fills all places but the last, and puts what is left of the replacements there. -/
theorem replaceNamed_eq (before : List Node) {child : Node} {after : List Node}
    (hit : child.isElement name = true) (last : after.any (Node.isElement name) = false)
    (replacements : List Element) :
    Node.replaceNamed name (before ++ child :: after) (replacements.map Element.toNode) =
      (fill name before replacements ++
        (replacements.drop (before.countP (Node.isElement name))).map put ++
          after.map kept).map node := by
  induction before generalizing replacements with
  | nil =>
      rw [List.nil_append, Node.replaceNamed, if_pos hit, if_neg (by simp [last]),
        List.map_append, List.map_append, map_node_map_put, map_node_map_kept]
      rfl
  | cons first before ih =>
      have more : (before ++ child :: after).any (Node.isElement name) = true := by simp [hit]
      rw [List.cons_append, Node.replaceNamed, fill]
      by_cases named : first.isElement name = true
      · rw [if_pos named, if_pos named, if_pos more, ← List.map_drop, ih,
          List.countP_cons_of_pos named, List.drop_drop, Nat.add_comm 1, ← List.map_take,
          ← map_node_map_put, ← List.map_append, List.append_assoc, List.append_assoc,
          List.append_assoc]
      · rw [if_neg named, if_neg named, ih, List.countP_cons_of_neg named]
        rfl

end Placed

/-! ## Arrangements -/

variable {name : String} {children : List Node}

/-- The element of a rank splits the nodes into those in front of it and those behind it. -/
theorem Node.exists_split_of_rank {child : Node} {i : Nat}
    (ranked : (children.filter (isElement name))[i]? = some child) :
    ∃ before after, children = before ++ child :: after ∧ before.countP (isElement name) = i ∧
      child.isElement name = true := by
  obtain ⟨bound, found⟩ := List.getElem?_eq_some_iff.mp ranked
  have split : children.filter (isElement name) =
      (children.filter (isElement name)).take i ++
        child :: (children.filter (isElement name)).drop (i + 1) := by
    rw [← found, List.getElem_cons_drop, List.take_append_drop]
  obtain ⟨earlier, later, rfl, front, back⟩ := List.filter_eq_append_iff.mp split
  obtain ⟨gap, after, rfl, none, hit, -⟩ := List.filter_eq_cons_iff.mp back
  refine ⟨earlier ++ gap, after, (List.append_assoc _ _ _).symm, ?_, hit⟩
  have gap_none : gap.countP (isElement name) = 0 := List.countP_eq_zero.mpr none
  rw [List.countP_append, gap_none, List.countP_eq_length_filter, front, List.length_take]
  omega

theorem Node.others_append (front back : List Node) :
    others name (front ++ back) = others name front ++ others name back := List.filter_append ..

theorem Node.others_cons_of_isElement {child : Node} (hit : child.isElement name = true)
    (nodes : List Node) : others name (child :: nodes) = others name nodes :=
  List.filter_cons_of_neg (by simp [hit])

theorem Node.others_of_not_any {nodes : List Node} (none : nodes.any (isElement name) = false) :
    others name nodes = nodes := by
  rw [others, List.filter_eq_self]
  simpa using none

/-- Without a child of the name, all that there is to say is that replacements come last. -/
theorem arranges_atEnd (none : children.any (Node.isElement name) = false)
    (replacements : List Element) :
    Arranges name children replacements (children.map .kept ++ replacements.map .put) := by
  have empty : children.filter (Node.isElement name) = [] := by
    simpa [List.filter_eq_nil_iff] using none
  refine ⟨?_, ?_, fun i child _ ranked => ?_, fun child last => ?_, fun _ => rfl⟩
  · rw [List.filterMap_append, Placed.filterMap_kept?_map_kept, Placed.filterMap_kept?_map_put,
      Node.others_of_not_any none, List.append_nil]
  · rw [List.filterMap_append, Placed.filterMap_put?_map_kept, Placed.filterMap_put?_map_put,
      List.nil_append]
  · rw [empty] at ranked
    cases ranked
  · rw [empty] at last
    cases last

/-- If there are elements of the name, one of them is the last. -/
theorem Node.exists_last (any : children.any (isElement name) = true) :
    ∃ before last after, children = before ++ last :: after ∧ last.isElement name = true ∧
      after.any (isElement name) = false := by
  induction children with
  | nil => cases any
  | cons node children ih =>
      by_cases more : children.any (isElement name) = true
      · obtain ⟨before, last, after, rfl, hit, none⟩ := ih more
        exact ⟨node :: before, last, after, rfl, hit, none⟩
      · rw [Bool.not_eq_true] at more
        rw [List.any_cons, more, Bool.or_false] at any
        exact ⟨[], node, children, rfl, any, more⟩

/-- An element of the name is the last one or stands in front of it. -/
theorem Node.eq_or_before_last {before after front back : List Node} {last child : Node}
    (none : after.any (isElement name) = false) (hit : child.isElement name = true)
    (same : before ++ last :: after = front ++ child :: back) :
    (front = before ∧ child = last ∧ back = after) ∨
      ∃ mid, before = front ++ child :: mid ∧ back = mid ++ last :: after := by
  rcases List.append_eq_append_iff.mp same with ⟨mid, front_eq, rest⟩ | ⟨mid, before_eq, rest⟩
  · cases mid with
    | nil =>
        obtain ⟨rfl, rfl⟩ := List.cons.inj rest
        exact .inl ⟨front_eq.trans (List.append_nil before), rfl, rfl⟩
    | cons first mid =>
        obtain ⟨rfl, rfl⟩ := List.cons.inj rest
        simp [hit] at none
  · cases mid with
    | nil =>
        obtain ⟨rfl, rfl⟩ := List.cons.inj rest
        exact .inl ⟨((List.append_nil front).symm.trans before_eq.symm), rfl, rfl⟩
    | cons first mid =>
        obtain ⟨rfl, rfl⟩ := List.cons.inj rest
        exact .inr ⟨mid, before_eq, rfl⟩

/-- With a last child of the name, the places in front of it are filled, and it gives way to all
replacements that are left. -/
theorem arranges_last {before after : List Node} {last : Node} (hit : last.isElement name = true)
    (none : after.any (Node.isElement name) = false) (replacements : List Element) :
    Arranges name (before ++ last :: after) replacements
      (Placed.fill name before replacements ++
        (replacements.drop (before.countP (Node.isElement name))).map .put ++
          after.map .kept) := by
  have after_count : after.countP (Node.isElement name) = 0 :=
    List.countP_eq_zero.mpr (by simpa using none)
  have after_empty : after.filter (Node.isElement name) = [] := by
    simpa [List.filter_eq_nil_iff] using none
  have kept_behind : Node.others name (last :: after) = after := by
    rw [Node.others_cons_of_isElement hit, Node.others_of_not_any none]
  constructor
  case kept =>
    rw [List.filterMap_append, List.filterMap_append, Placed.filterMap_kept?_fill,
      Placed.filterMap_kept?_map_put, Placed.filterMap_kept?_map_kept, Node.others_append,
      kept_behind, List.append_nil]
  case put =>
    rw [List.filterMap_append, List.filterMap_append, Placed.filterMap_put?_fill,
      Placed.filterMap_put?_map_put, Placed.filterMap_put?_map_kept, List.append_nil,
      List.take_append_drop]
  case inPlace =>
    intro i child replacement ranked given
    obtain ⟨front, back, split, count, child_hit⟩ := Node.exists_split_of_rank ranked
    have next : replacements.drop i = replacement :: replacements.drop (i + 1) := by
      obtain ⟨bound, rfl⟩ := List.getElem?_eq_some_iff.mp given
      exact List.drop_eq_getElem_cons bound
    refine ⟨front, back, Placed.fill name front replacements, ?_⟩
    rcases Node.eq_or_before_last none child_hit split with ⟨rfl, rfl, rfl⟩ | ⟨mid, rfl, rfl⟩
    · -- The last child gives way to the replacement of its rank and those behind it.
      refine ⟨(replacements.drop (i + 1)).map .put ++ back.map .kept, rfl, count, ?_, ?_,
        Placed.filterMap_kept?_fill front replacements, ?_⟩
      · rw [count, next, List.map_cons, List.append_assoc, List.cons_append]
      · rw [Placed.filterMap_put?_fill, count]
      · rw [List.filterMap_append, Placed.filterMap_kept?_map_put,
          Placed.filterMap_kept?_map_kept, Node.others_of_not_any none, List.nil_append]
    · -- An earlier child gives way to the replacement of its rank alone.
      have filled : Placed.fill name (front ++ child :: mid) replacements =
          Placed.fill name front replacements ++
            .put replacement :: Placed.fill name mid (replacements.drop (i + 1)) := by
        rw [Placed.fill_append, count, next, Placed.fill, if_pos child_hit]
        rfl
      refine ⟨Placed.fill name mid (replacements.drop (i + 1)) ++
        ((replacements.drop ((front ++ child :: mid).countP (Node.isElement name))).map .put ++
          after.map .kept), split, count, ?_, ?_, Placed.filterMap_kept?_fill front replacements,
        ?_⟩
      · rw [filled, List.append_assoc, List.append_assoc, List.cons_append]
      · rw [Placed.filterMap_put?_fill, count]
      · rw [List.filterMap_append, List.filterMap_append, Placed.filterMap_kept?_fill,
          Placed.filterMap_kept?_map_put, Placed.filterMap_kept?_map_kept, Node.others_append,
          kept_behind, List.nil_append]
  case surplus =>
    intro child final
    have filtered : (before ++ last :: after).filter (Node.isElement name) =
        before.filter (Node.isElement name) ++ [last] := by
      rw [List.filter_append, List.filter_cons_of_pos hit, after_empty]
    rw [filtered, List.getLast?_concat] at final
    obtain rfl := Option.some.inj final
    refine ⟨before, after, Placed.fill name before replacements, rfl, ?_,
      Placed.filterMap_kept?_fill before replacements, rfl⟩
    rw [List.countP_append, List.countP_cons_of_pos hit, after_count]
  case atEnd =>
    intro empty
    have mem : last ∈ (before ++ last :: after).filter (Node.isElement name) :=
      List.mem_filter.mpr ⟨List.mem_append_right _ List.mem_cons_self, hit⟩
    rw [empty] at mem
    cases mem

/-- Replacing children keeps every other node in its place, whether there are fewer replacements
than children of the name, as many, or more. -/
theorem Element.replaceNamed_keeps_places (e : Element) (name : String)
    (replacements : List Element) :
    (e.replaceNamed name replacements).name = e.name ∧
      (e.replaceNamed name replacements).attributes = e.attributes ∧
      ∃ arrangement : List Placed,
        (e.replaceNamed name replacements).children = arrangement.map Placed.node ∧
          Arranges name e.children replacements arrangement := by
  refine ⟨rfl, rfl, ?_⟩
  by_cases any : e.children.any (Node.isElement name) = true
  · obtain ⟨before, last, after, split, hit, none⟩ := Node.exists_last any
    have children : (e.replaceNamed name replacements).children =
        Node.replaceNamed name e.children (replacements.map toNode) := if_pos any
    rw [children, split]
    exact ⟨_, Placed.replaceNamed_eq before hit none replacements, arranges_last hit none _⟩
  · have none : e.children.any (Node.isElement name) = false := by simpa using any
    have children : (e.replaceNamed name replacements).children =
        e.children ++ replacements.map toNode := if_neg any
    refine ⟨_, ?_, arranges_atEnd none replacements⟩
    rw [children, List.map_append, Placed.map_node_map_kept, Placed.map_node_map_put]

/-- The third replacement follows the second, in front of what is behind the last child. -/
example :
    (Element.replaceNamed ⟨"t", [], [.element "a" [] [], .comment "1", .element "a" [] [],
        .comment "2"]⟩ "a" [⟨"x", [], []⟩, ⟨"a", [], []⟩, ⟨"y", [], []⟩]).children =
      [.element "x" [] [], .comment "1", .element "a" [] [], .element "y" [] [],
        .comment "2"] := rfl

end SymbolFont.Markup
