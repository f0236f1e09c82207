/-
# Visiting the values of a tree

A visitor has a state and may change each value that it is passed.  It is passed every attribute
value of a tree once, in document order: an element comes before all that is in it, and siblings
come from left to right.  What it returns is put where the value was, and nothing else changes.

Which values there are, and in which order, is told here without going through the tree: a site is
the way to an element with the number of an attribute, sites are looked up one by one, and their
order is that of their numbers.
-/

import Mathlib.Data.List.Basic
import SymbolFont.Proofs.Markup.Values

namespace SymbolFont.Markup

/-! ## Sites of attributes -/

/-- Where an attribute is: the positions of the children that lead to its element, and its own
position among the attributes there. -/
structure Site where
  path : List Nat
  index : Nat
  deriving DecidableEq, Repr

namespace Site

/-- Does the first site come before the second in document order? -/
def Before (p q : Site) : Prop := p.path < q.path ∨ p.path = q.path ∧ p.index < q.index

/-- The same of sites in siblings, each with the position of its node among them. -/
def BeforeAmong (p q : Nat × Site) : Prop := p.1 < q.1 ∨ p.1 = q.1 ∧ p.2.Before q.2

/-- The site as seen from the parent, if it is seen so from the `i`-th child. -/
def below (i : Nat) (p : Site) : Site := { p with path := i :: p.path }

theorem below_inj {i j : Nat} {p q : Site} : p.below i = q.below j ↔ i = j ∧ p = q := by
  obtain ⟨path, k⟩ := p
  obtain ⟨path', k'⟩ := q
  simp [below, and_assoc]

/-- What an element itself has comes before what is in its children. -/
theorem before_below (k i : Nat) (p : Site) : Before ⟨[], k⟩ (p.below i) :=
  .inl (List.nil_lt_cons i p.path)

theorem below_before_below_iff {i j : Nat} {p q : Site} :
    Before (p.below i) (q.below j) ↔ BeforeAmong (i, p) (j, q) := by
  simp only [BeforeAmong, Before, below, List.cons_lt_cons_iff, List.cons.injEq]
  tauto

theorem beforeAmong_behind {p q : Nat × Site} (before : BeforeAmong p q) :
    BeforeAmong (p.1 + 1, p.2) (q.1 + 1, q.2) := by
  simpa [BeforeAmong] using before

end Site

namespace Element

/-- The element that the positions of children lead to. -/
def elementAt? : List Nat → Element → Option Element
  | [], e => some e
  | i :: path, e => (e.children[i]?.bind Node.element?).bind (elementAt? path)

/-- The value of the attribute at a site. -/
def valueAt? (e : Element) (site : Site) : Option String :=
  (e.elementAt? site.path).bind fun d => d.attributes[site.index]?.map Prod.snd

end Element

namespace Node

/-- The value of the attribute at a site in one of the siblings. -/
def valueIn? (nodes : List Node) (place : Nat × Site) : Option String :=
  (nodes[place.1]?.bind element?).bind fun e => e.valueAt? place.2

mutual

/-- The sites in a node, in document order. -/
def sites : Node → List Site
  | .element _ attributes children =>
      (List.range attributes.length).map (Site.mk []) ++
        (sitesList children).map fun (i, site) => site.below i
  | .text _ => []
  | .comment _ => []

/-- The sites in siblings, each with the position of its node among them. -/
def sitesList : List Node → List (Nat × Site)
  | [] => []
  | node :: nodes =>
      node.sites.map (Prod.mk 0) ++ (sitesList nodes).map fun (i, site) => (i + 1, site)

end

end Node

/-- The sites of all attributes of an element and of the elements below it, in document order. -/
def Element.sites (e : Element) : List Site := e.toNode.sites

namespace Node

/-- The sites of the first sibling are those in it. -/
theorem valueIn?_cons_zero (node : Node) (nodes : List Node) (site : Site) :
    valueIn? (node :: nodes) (0, site) = node.element?.bind fun e => e.valueAt? site := rfl

theorem valueIn?_cons_succ (node : Node) (nodes : List Node) (i : Nat) (site : Site) :
    valueIn? (node :: nodes) (i + 1, site) = valueIn? nodes (i, site) := rfl

end Node

@[simp]
theorem Node.sites_element (name : String) (attributes : Attributes) (children : List Node) :
    (Node.element name attributes children).sites = Element.sites ⟨name, attributes, children⟩ :=
  rfl

namespace Element

theorem sites_eq (e : Element) :
    e.sites = (List.range e.attributes.length).map (Site.mk []) ++
      (Node.sitesList e.children).map fun (i, site) => site.below i := rfl

theorem valueAt?_own (e : Element) (k : Nat) :
    e.valueAt? ⟨[], k⟩ = e.attributes[k]?.map Prod.snd := rfl

theorem valueAt?_below (e : Element) (i : Nat) (site : Site) :
    e.valueAt? (site.below i) = Node.valueIn? e.children (i, site) :=
  Option.bind_assoc _ _ _

end Element

/-! ### Every site is listed -/

/-- A site of an element is listed if it has a value, provided that this is so inside. -/
theorem Element.mem_sites_iff_of_children {e : Element}
    (inside : ∀ place, place ∈ Node.sitesList e.children ↔
      (Node.valueIn? e.children place).isSome = true) (site : Site) :
    site ∈ e.sites ↔ (e.valueAt? site).isSome = true := by
  obtain ⟨path, k⟩ := site
  rw [sites_eq, List.mem_append]
  cases path with
  | nil => simp [valueAt?_own, Site.below]
  | cons i path =>
      have split : (⟨i :: path, k⟩ : Site) = Site.below i ⟨path, k⟩ := rfl
      rw [split, valueAt?_below, ← inside]
      simp only [List.mem_map, Prod.exists, Site.below_inj]
      simp [Site.below]

theorem Node.mem_sitesList_iff (nodes : List Node) (place : Nat × Site) :
    place ∈ sitesList nodes ↔ (valueIn? nodes place).isSome = true := by
  induction nodes using list_induction generalizing place with
  | nil => simp [sitesList, valueIn?]
  | text content nodes ih =>
      obtain ⟨i, site⟩ := place
      cases i <;> simp [sitesList, sites, valueIn?_cons_zero, valueIn?_cons_succ, element?, ih]
  | comment content nodes ih =>
      obtain ⟨i, site⟩ := place
      cases i <;> simp [sitesList, sites, valueIn?_cons_zero, valueIn?_cons_succ, element?, ih]
  | element name attributes children nodes inside ih =>
      obtain ⟨i, site⟩ := place
      cases i with
      | zero =>
          have first := Element.mem_sites_iff_of_children (e := ⟨name, attributes, children⟩) inside
          simpa [sitesList, valueIn?_cons_zero, element?] using first site
      | succ i => simpa [sitesList, valueIn?_cons_succ] using ih (i, site)

theorem Element.mem_sites_iff {e : Element} {site : Site} :
    site ∈ e.sites ↔ (e.valueAt? site).isSome = true :=
  mem_sites_iff_of_children (Node.mem_sitesList_iff e.children) site

/-! ### Sites and values are listed in the same order -/

theorem Element.map_valueAt?_sites_of_children {e : Element}
    (inside : (Node.sitesList e.children).map (Node.valueIn? e.children) =
      (Node.valuesList e.children).map some) :
    e.sites.map e.valueAt? = e.values.map some := by
  have own : (List.range e.attributes.length).map (fun k => e.attributes[k]?.map Prod.snd) =
      (e.attributes.map Prod.snd).map some := by
    apply List.ext_getElem
    · simp
    · intro k bound _
      rw [List.length_map, List.length_range] at bound
      simp [List.getElem?_eq_getElem bound]
  have below : ((Node.sitesList e.children).map fun (i, site) => site.below i).map e.valueAt? =
      (Node.valuesList e.children).map some := by
    rw [List.map_map, ← inside]
    exact List.map_congr_left fun (i, site) _ => e.valueAt?_below i site
  rw [sites_eq, values, List.map_append, List.map_append, List.map_map, below, ← own]
  rfl

theorem Node.map_valueIn?_sitesList (nodes : List Node) :
    (sitesList nodes).map (valueIn? nodes) = (valuesList nodes).map some := by
  have behind (node : Node) (nodes : List Node) :
      ((sitesList nodes).map fun (i, site) => (i + 1, site)).map (valueIn? (node :: nodes)) =
        (sitesList nodes).map (valueIn? nodes) := List.map_map
  induction nodes using list_induction with
  | nil => rfl
  | text content nodes ih => exact (behind (.text content) nodes).trans ih
  | comment content nodes ih => exact (behind (.comment content) nodes).trans ih
  | element name attributes children nodes inside ih =>
      have first :=
        Element.map_valueAt?_sites_of_children (e := ⟨name, attributes, children⟩) inside
      rw [sitesList, valuesList, List.map_append, List.map_append, behind, ih, List.map_map]
      exact congrArg (· ++ (valuesList nodes).map some) first

theorem Element.map_valueAt?_sites (e : Element) : e.sites.map e.valueAt? = e.values.map some :=
  map_valueAt?_sites_of_children (Node.map_valueIn?_sitesList e.children)

/-! ### The listing is in document order -/

theorem Element.pairwise_sites_of_children {e : Element}
    (inside : (Node.sitesList e.children).Pairwise Site.BeforeAmong) :
    e.sites.Pairwise Site.Before := by
  rw [sites_eq, List.pairwise_append, List.pairwise_map, List.pairwise_map]
  refine ⟨?_, ?_, ?_⟩
  · exact List.pairwise_lt_range.imp fun less => .inr ⟨rfl, less⟩
  · exact inside.imp Site.below_before_below_iff.mpr
  · simp only [List.forall_mem_map]
    exact fun k _ (i, site) _ => site.before_below k i

theorem Node.pairwise_sitesList (nodes : List Node) :
    (sitesList nodes).Pairwise Site.BeforeAmong := by
  have behind {sites : List (Nat × Site)} (ordered : sites.Pairwise Site.BeforeAmong) :
      (sites.map fun (i, site) => (i + 1, site)).Pairwise Site.BeforeAmong :=
    List.pairwise_map.mpr (ordered.imp Site.beforeAmong_behind)
  induction nodes using list_induction with
  | nil => exact .nil
  | text content nodes ih => exact behind ih
  | comment content nodes ih => exact behind ih
  | element name attributes children nodes inside ih =>
      have first := Element.pairwise_sites_of_children (e := ⟨name, attributes, children⟩) inside
      rw [sitesList, List.pairwise_append, List.pairwise_map]
      refine ⟨first.imp fun before => .inr ⟨rfl, before⟩, behind ih, ?_⟩
      simp only [List.forall_mem_map]
      exact fun _ _ (i, _) _ => .inl (Nat.succ_pos i)

theorem Element.pairwise_sites (e : Element) : e.sites.Pairwise Site.Before :=
  pairwise_sites_of_children (Node.pairwise_sitesList e.children)

/-! ### Sites do not depend on values -/

theorem Node.sitesList_mapValuesList (f : String → String) (nodes : List Node) :
    sitesList (mapValuesList f nodes) = sitesList nodes := by
  induction nodes using list_induction with
  | nil => rfl
  | text content nodes ih => simp [mapValuesList, mapValues, sitesList, ih]
  | comment content nodes ih => simp [mapValuesList, mapValues, sitesList, ih]
  | element name attributes children nodes inside ih =>
      simp [mapValuesList, mapValues, sitesList, Element.sites_eq, inside, ih]

theorem Element.sites_mapValues (f : String → String) (e : Element) :
    (e.mapValues f).sites = e.sites := by
  simp [sites_eq, mapValues, Node.sitesList_mapValuesList]

/-! ## The run of a visitor -/

section Visitor

variable {σ : Type} (visit : σ → String → String × σ)

/-- The visitor as a program with a state. -/
def visitor (value : String) : StateM σ String := fun state => visit state value

/-- Pass values to a visitor one after the other.  This gives what it returns for them, and the
state that it ends in. -/
def passValues (state : σ) (values : List String) : List String × σ :=
  (values.mapM (visitor visit)).run state

theorem passValues_cons (state : σ) (value : String) (values : List String) :
    passValues visit state (value :: values) =
      let (value, state) := visit state value
      let (values, state) := passValues visit state values
      (value :: values, state) := by
  simp only [passValues, List.mapM_cons]
  rfl

theorem passValues_append (state : σ) (front values : List String) :
    passValues visit state (front ++ values) =
      let (front, state) := passValues visit state front
      let (values, state) := passValues visit state values
      (front ++ values, state) := by
  simp only [passValues, List.mapM_append]
  rfl

/-- The visitor that also keeps a list of the values that it is passed. -/
def recorded : σ × List String → String → String × (σ × List String) :=
  fun (state, passed) value =>
    let (value', state) := visit state value
    (value', state, passed ++ [value])

theorem keys_visitAttributes (state : σ) (attributes : Attributes) :
    (Node.visitAttributes visit state attributes).1.map (fun (key, _) => (key, "")) =
      attributes.map fun (key, _) => (key, "") := by
  induction attributes generalizing state with
  | nil => rfl
  | cons pair attributes ih => simp [Node.visitAttributes, ih]

theorem values_visitAttributes (state : σ) (attributes : Attributes) :
    (Node.visitAttributes visit state attributes).map (List.map Prod.snd) id =
      passValues visit state (attributes.map Prod.snd) := by
  induction attributes generalizing state with
  | nil => rfl
  | cons pair attributes ih =>
      rw [List.map_cons, passValues_cons]
      simp only [← ih]
      rfl

theorem recorded_visitAttributes (state : σ) (passed : List String) (attributes : Attributes) :
    Node.visitAttributes (recorded visit) (state, passed) attributes =
      let (attributes', state) := Node.visitAttributes visit state attributes
      (attributes', state, passed ++ attributes.map Prod.snd) := by
  induction attributes generalizing state passed with
  | nil => simp [Node.visitAttributes]
  | cons pair attributes ih => simp [Node.visitAttributes, recorded, ih]

theorem keys_visitValuesList (state : σ) (nodes : List Node) :
    Node.mapValuesList (fun _ => "") (Node.visitValuesList visit state nodes).1 =
      Node.mapValuesList (fun _ => "") nodes := by
  induction nodes using Node.list_induction generalizing state with
  | nil => rfl
  | text content nodes ih => simp [Node.visitValuesList, Node.visitValues, Node.mapValuesList, ih]
  | comment content nodes ih =>
      simp [Node.visitValuesList, Node.visitValues, Node.mapValuesList, ih]
  | element name attributes children nodes inside ih =>
      simp [Node.visitValuesList, Node.visitValues, Node.mapValuesList, Node.mapValues,
        keys_visitAttributes, inside, ih]

theorem values_visitValuesList (state : σ) (nodes : List Node) :
    (Node.visitValuesList visit state nodes).map Node.valuesList id =
      passValues visit state (Node.valuesList nodes) := by
  induction nodes using Node.list_induction generalizing state with
  | nil => rfl
  | text content nodes ih => exact ih state
  | comment content nodes ih => exact ih state
  | element name attributes children nodes inside ih =>
      rw [Node.valuesList, Node.values, passValues_append, passValues_append]
      simp only [← values_visitAttributes, ← inside, ← ih]
      rfl

theorem recorded_visitValuesList (state : σ) (passed : List String) (nodes : List Node) :
    Node.visitValuesList (recorded visit) (state, passed) nodes =
      let (nodes', state) := Node.visitValuesList visit state nodes
      (nodes', state, passed ++ Node.valuesList nodes) := by
  induction nodes using Node.list_induction generalizing state passed with
  | nil => simp [Node.visitValuesList, Node.valuesList]
  | text content nodes ih =>
      simp [Node.visitValuesList, Node.visitValues, Node.valuesList, Node.values, ih]
  | comment content nodes ih =>
      simp [Node.visitValuesList, Node.visitValues, Node.valuesList, Node.values, ih]
  | element name attributes children nodes inside ih =>
      simp [Node.visitValuesList, Node.visitValues, Node.valuesList, Node.values,
        recorded_visitAttributes, inside, ih]

namespace Element

variable (state : σ) (e : Element)

/-- Blanking all values shows what a visit leaves alone. -/
theorem blank_visitValues :
    (e.visitValues visit state).1.mapValues (fun _ => "") = e.mapValues fun _ => "" := by
  simp [visitValues, mapValues, keys_visitAttributes, keys_visitValuesList]

/-- The values of a tree behind a visit, with the state of the visitor. -/
theorem values_visitValues :
    (e.visitValues visit state).map values id = passValues visit state e.values := by
  rw [values, passValues_append]
  simp only [← values_visitAttributes, ← values_visitValuesList]
  rfl

theorem recorded_visitValues :
    e.visitValues (recorded visit) (state, []) =
      let (e', state) := e.visitValues visit state
      (e', state, e.values) := by
  simp [visitValues, values, recorded_visitAttributes, recorded_visitValuesList]

/-- The sites of a tree are not changed by a visit. -/
theorem sites_visitValues : (e.visitValues visit state).1.sites = e.sites := by
  rw [← sites_mapValues (fun _ => ""), blank_visitValues, sites_mapValues]

/-- A visitor is passed the values of all attributes, each once and in document order, and its
state goes from one to the next.  What it returns for a value is put at the site that the value
was read from, and the tree is the same otherwise. -/
theorem visited_once_in_document_order :
    ∃ e' final, e.visitValues visit state = (e', final) ∧
      (e.sites.Pairwise Site.Before ∧ ∀ site, site ∈ e.sites ↔ (e.valueAt? site).isSome = true) ∧
      e.sites.map e.valueAt? = e.values.map some ∧
      e.visitValues (recorded visit) (state, []) = (e', final, e.values) ∧
      (passValues visit state e.values).2 = final ∧
      (passValues visit state e.values).1.map some = e.sites.map e'.valueAt? ∧
      e'.mapValues (fun _ => "") = e.mapValues fun _ => "" := by
  have passed := values_visitValues visit state e
  have seen := recorded_visitValues visit state e
  have sites := sites_visitValues visit state e
  have blank := blank_visitValues visit state e
  cases visited : e.visitValues visit state with
  | mk e' final =>
      rw [visited] at passed seen sites blank
      refine ⟨e', final, rfl, ⟨e.pairwise_sites, fun _ => mem_sites_iff⟩, e.map_valueAt?_sites,
        seen, ?_, ?_, blank⟩
      · rw [← passed]
        rfl
      · rw [← passed, ← sites, map_valueAt?_sites]
        rfl

end Element

end Visitor

/-! ## Visitors without a state -/

section Stateless

variable (f : String → String)

theorem visitAttributes_stateless (attributes : Attributes) :
    Node.visitAttributes (fun (_ : Unit) value => (f value, ())) () attributes =
      (attributes.map fun (key, value) => (key, f value), ()) := by
  induction attributes with
  | nil => rfl
  | cons pair attributes ih => simp [Node.visitAttributes, ih]

theorem visitValuesList_stateless (nodes : List Node) :
    Node.visitValuesList (fun (_ : Unit) value => (f value, ())) () nodes =
      (Node.mapValuesList f nodes, ()) := by
  induction nodes using Node.list_induction with
  | nil => rfl
  | text content nodes ih =>
      simp [Node.visitValuesList, Node.visitValues, Node.mapValuesList, Node.mapValues, ih]
  | comment content nodes ih =>
      simp [Node.visitValuesList, Node.visitValues, Node.mapValuesList, Node.mapValues, ih]
  | element name attributes children nodes inside ih =>
      simp [Node.visitValuesList, Node.visitValues, Node.mapValuesList, Node.mapValues,
        visitAttributes_stateless, inside, ih]

/-- A change of all values, such as the correction of names, is the visit of a visitor without a
state. -/
theorem Element.visitValues_stateless (e : Element) :
    e.visitValues (fun (_ : Unit) value => (f value, ())) () = (e.mapValues f, ()) := by
  simp [visitValues, mapValues, visitAttributes_stateless, visitValuesList_stateless]

end Stateless

end SymbolFont.Markup
