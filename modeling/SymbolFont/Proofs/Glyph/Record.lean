/-
# Records are read back as they were

What the element of a record is read as is the record itself, with its numbers as documents
hold them.  For points and glyphs this takes what reading ensures: that the attributes and
nodes which are passed on have no meaning of their own, and that the flags of a point go with
its place on or off the curve.
-/

import Mathlib.Tactic.Common
import SymbolFont.Glyph.CharMap
import SymbolFont.Glyph.Metric
import SymbolFont.Glyph.Record
import SymbolFont.Proofs.Markup.Node
import SymbolFont.Proofs.Number.Integer
import SymbolFont.Proofs.Number.Written

namespace SymbolFont

open Markup Number

/-! ## Reading in sequence -/

theorem bind_eq_ok {ε α β : Type} {x : Except ε α} {f : α → Except ε β} {b : β} :
    x >>= f = .ok b ↔ ∃ a, x = .ok a ∧ f a = .ok b := by
  cases x with
  | error e => exact ⟨fun eq => (nomatch eq), fun ⟨_, eq, _⟩ => (nomatch eq)⟩
  | ok a => exact ⟨fun eq => ⟨a, rfl, eq⟩, fun ⟨_, eq, rest⟩ => by cases eq; exact rest⟩

theorem exists_of_map_eq_ok {ε α β : Type} {f : α → β} {x : Except ε α} {b : β}
    (mapped : f <$> x = .ok b) : ∃ a, x = .ok a ∧ f a = b := by
  cases x with
  | error fault => cases mapped
  | ok a => exact ⟨a, rfl, Except.ok.inj mapped⟩

/-- A test that the result passes shows that there is one. -/
theorem exists_of_any_toOption {ε α : Type} {x : Except ε α} {p : α → Bool}
    (passed : x.toOption.any p = true) : ∃ a, x = .ok a ∧ p a = true := by
  cases x with
  | error e => cases passed
  | ok a => exact ⟨a, rfl, passed⟩

/-- Reading a list whose items are known to be read. -/
theorem mapM_map_eq_ok {ε α β γ : Type} {read : β → Except ε γ} {write : α → β} {kept : α → γ}
    {items : List α} (each : ∀ item ∈ items, read (write item) = .ok (kept item)) :
    (items.map write).mapM read = .ok (items.map kept) := by
  induction items with
  | nil => rfl
  | cons item items ih =>
      rw [List.map_cons, List.mapM_cons, each item List.mem_cons_self,
        ih fun later mem => each later (List.mem_cons_of_mem _ mem)]
      rfl

/-- Every item of a list that has been read comes from reading one. -/
theorem exists_of_mem_of_mapM_eq_ok {ε α β : Type} {read : α → Except ε β} {items : List α}
    {results : List β} (all : items.mapM read = .ok results) {result : β} (mem : result ∈ results) :
    ∃ item ∈ items, read item = .ok result := by
  induction items generalizing results with
  | nil => cases all; exact absurd mem List.not_mem_nil
  | cons item items ih =>
      rw [List.mapM_cons] at all
      obtain ⟨first, now, rest⟩ := bind_eq_ok.mp all
      obtain ⟨others, later, same⟩ := bind_eq_ok.mp rest
      cases same
      rcases List.mem_cons.mp mem with rfl | mem
      · exact ⟨item, List.mem_cons_self, now⟩
      · obtain ⟨source, source_mem, read⟩ := ih later mem
        exact ⟨source, List.mem_cons_of_mem _ source_mem, read⟩

/-- Every result of reading a list comes from the item in its place. -/
theorem forall₂_of_mapM_eq_ok {ε α β : Type} {read : α → Except ε β} {items : List α}
    {results : List β} (all : items.mapM read = .ok results) :
    List.Forall₂ (fun item result => read item = .ok result) items results := by
  induction items generalizing results with
  | nil => cases all; exact .nil
  | cons item items ih =>
      rw [List.mapM_cons] at all
      obtain ⟨first, now, rest⟩ := bind_eq_ok.mp all
      obtain ⟨others, later, same⟩ := bind_eq_ok.mp rest
      cases same
      exact .cons now (ih later)

/-! ## Fields -/

theorem Markup.Element.required_eq_ok {e : Element} {key value : String}
    (found : e.attr? key = some value) : e.required key = .ok value := by
  rw [required, found]

theorem Markup.Element.attr?_of_required {e : Element} {key value : String}
    (read : e.required key = .ok value) : e.attr? key = some value := by
  unfold required at read
  split at read
  · rename_i found
    rw [found, Except.ok.inj read]
  · cases read

theorem Markup.Element.number_written {e : Element} {key : String} {x : Float}
    (found : e.attr? key = some (written x)) : e.number key = .ok (asWritten x) := by
  simp only [number, required_eq_ok found, readChars_written]

/-! ## Entries of the character map -/

/-- An entry is read exactly if its fields are. -/
theorem CharMapEntry.ofElement_eq_ok {e : Element} {entry : CharMapEntry} :
    ofElement e = .ok entry ↔
      e.required "name" = .ok entry.name ∧ e.required "code" = .ok entry.code := by
  constructor
  · intro read
    obtain ⟨name, name_read, rest⟩ := bind_eq_ok.mp read
    obtain ⟨code, code_read, rest⟩ := bind_eq_ok.mp rest
    cases rest
    exact ⟨name_read, code_read⟩
  · rintro ⟨name, code⟩
    rw [ofElement, name, code]
    rfl

/-! ## Metrics -/

/-- Metrics are read exactly if their fields are. -/
theorem Metric.ofElement_eq_ok {e : Element} {m : Metric Float} :
    ofElement e = .ok m ↔ e.required "name" = .ok m.name ∧ e.number "width" = .ok m.width ∧
      e.number "lsb" = .ok m.lsb := by
  constructor
  · intro read
    obtain ⟨name, name_read, rest⟩ := bind_eq_ok.mp read
    obtain ⟨width, width_read, rest⟩ := bind_eq_ok.mp rest
    obtain ⟨lsb, lsb_read, rest⟩ := bind_eq_ok.mp rest
    cases rest
    exact ⟨name_read, width_read, lsb_read⟩
  · rintro ⟨name, width, lsb⟩
    rw [ofElement, name, width, lsb]
    rfl

/-- The metrics that a document holds. -/
def Metric.asWritten (m : Metric Float) : Metric Float :=
  { m with width := Number.asWritten m.width, lsb := Number.asWritten m.lsb }

theorem Metric.ofElement_toElement (m : Metric Float) :
    ofElement m.toElement = .ok m.asWritten := by
  have name : m.toElement.required "name" = .ok m.name := Element.required_eq_ok rfl
  have width : m.toElement.number "width" = .ok (Number.asWritten m.width) :=
    Element.number_written rfl
  have lsb : m.toElement.number "lsb" = .ok (Number.asWritten m.lsb) := Element.number_written rfl
  exact ofElement_eq_ok.mpr ⟨name, width, lsb⟩

@[simp] theorem Metric.asWritten_asWritten (m : Metric Float) :
    m.asWritten.asWritten = m.asWritten := by
  simp [asWritten]

/-- Writing depends on a number only as far as documents hold it. -/
@[simp] theorem Metric.toElement_asWritten (m : Metric Float) :
    m.asWritten.toElement = m.toElement := by
  simp [toElement, asWritten]

/-! ## Points -/

namespace Point

/-- A point is read exactly if its flags and coordinates are, with its other attributes. -/
theorem ofElement_eq_ok {e : Element} {p : Point Float} :
    ofElement e = .ok p ↔ readFlags e = .ok p.flags ∧ e.number "x" = .ok p.x ∧
      e.number "y" = .ok p.y ∧ p.onCurve = p.flags.any (fun f => f &&& 1 == 1) ∧
      p.extra = e.attributes.filter fun (key, _) => !pointKeys.contains key := by
  constructor
  · intro read
    obtain ⟨flags, flags_read, rest⟩ := bind_eq_ok.mp read
    obtain ⟨x, x_read, rest⟩ := bind_eq_ok.mp rest
    obtain ⟨y, y_read, rest⟩ := bind_eq_ok.mp rest
    cases rest
    exact ⟨flags_read, x_read, y_read, rfl, rfl⟩
  · rintro ⟨flags, x, y, onCurve, extra⟩
    rw [ofElement, flags, x, y]
    show Except.ok _ = Except.ok p
    rw [← onCurve, ← extra]

/-- The point that a document holds. -/
def asWritten (p : Point Float) : Point Float := p.mapAxes Number.asWritten Number.asWritten

/-- The point that is read back: it has the flags that it was written with. -/
def asStored (p : Point Float) : Point Float := { p.asWritten with flags := p.writtenFlags }

/-- Are the other attributes of the point others than its own? -/
def Storable {α : Type} (p : Point α) : Prop := ∀ pair ∈ p.extra, pair.1 ∉ pointKeys

/-- What reading ensures of a point: its other attributes are others, and its flags tell
whether it is on the curve. -/
structure Readable {α : Type} (p : Point α) : Prop where
  extra : ∀ pair ∈ p.extra, pair.1 ∉ pointKeys
  flags : p.flags.any (fun f => f &&& 1 == 1) = p.onCurve

theorem flags_eq (f : UInt32) : (f &&& ~~~1) ||| (f &&& 1) = f := by
  rw [← UInt32.toBitVec_inj, UInt32.toBitVec_or, UInt32.toBitVec_and, UInt32.toBitVec_and,
    UInt32.toBitVec_not, ← BitVec.and_or_distrib_left, BitVec.not_or_self, BitVec.and_allOnes]

/-- Of flags that are put together, the lowest is the one put in. -/
theorem lowest_flag_eq (f lowest : UInt32) : ((f &&& ~~~1) ||| lowest) &&& 1 = lowest &&& 1 := by
  rw [← UInt32.toBitVec_inj, UInt32.toBitVec_and, UInt32.toBitVec_or,
    BitVec.and_or_distrib_right, UInt32.toBitVec_and, BitVec.and_assoc, UInt32.toBitVec_not,
    BitVec.not_and_self, UInt32.toBitVec_and]
  show (f.toBitVec &&& 0#32) ||| _ = _
  rw [BitVec.and_zero, BitVec.zero_or]

theorem and_one_eq (f : UInt32) : f &&& 1 = if (f &&& 1 == 1) = true then 1 else 0 := by
  have value : (f &&& 1).toNat = f.toNat % 2 := by
    rw [UInt32.toNat_and]
    exact Nat.and_one_is_mod _
  by_cases one : (f &&& 1 == 1) = true
  · rw [if_pos one]
    exact eq_of_beq one
  · rw [if_neg one]
    apply UInt32.toNat_inj.mp
    have differ : (f &&& 1).toNat ≠ 1 := fun same => one (beq_of_eq (UInt32.toNat_inj.mp same))
    show _ = 0
    omega

/-- A point is written with the flags that it was read with. -/
theorem Readable.writtenFlags {α : Type} {p : Point α} (readable : p.Readable) :
    p.writtenFlags = p.flags := by
  have consistent := readable.flags
  unfold Point.writtenFlags
  cases flags : p.flags with
  | none =>
      rw [flags] at consistent
      rw [← consistent]
      rfl
  | some f =>
      rw [flags] at consistent
      simp only [Option.any_some] at consistent
      rw [← consistent, ← and_one_eq]
      exact congrArg some (flags_eq f)

theorem Readable.asStored {p : Point Float} (readable : p.Readable) : p.asStored = p.asWritten := by
  rw [Point.asStored, readable.writtenFlags]
  rfl

/-- The flags that a point is written with tell whether it is on the curve. -/
theorem any_writtenFlags {α : Type} (p : Point α) :
    p.writtenFlags.any (fun f => f &&& 1 == 1) = p.onCurve := by
  unfold writtenFlags
  cases p.flags with
  | none => cases p.onCurve <;> rfl
  | some f =>
      simp only [Option.any_some, lowest_flag_eq]
      cases p.onCurve <;> rfl

/-- With the flags that it was written with, a point is as it could have been read. -/
theorem Storable.readable_asStored {p : Point Float} (storable : p.Storable) :
    p.asStored.Readable :=
  ⟨storable, any_writtenFlags p⟩

theorem lookup_extra {α : Type} {p : Point α} (storable : p.Storable) {key : String}
    (own : key ∈ pointKeys) : p.extra.lookup key = none := by
  rw [List.lookup_eq_none_iff]
  intro pair mem
  rw [bne_iff_ne]
  rintro rfl
  exact storable pair mem own

/-- The attributes of a point that are not its own are those that it was read with. -/
theorem filter_attributes_toElement {p : Point Float} (storable : p.Storable) :
    p.toElement.attributes.filter (fun (key, _) => !pointKeys.contains key) = p.extra := by
  have kept : ∀ pair ∈ p.extra, (!pointKeys.contains pair.1) = true := by
    intro pair mem
    simpa using storable pair mem
  rw [toElement, List.filter_append, List.filter_eq_self.mpr kept]
  cases p.writtenFlags <;> rfl

/-- The flags of a point are written as a number, if there are any. -/
theorem attr?_on_toElement {p : Point Float} (storable : p.Storable) :
    p.toElement.attr? "on" = p.writtenFlags.map fun f => toString f.toNat := by
  rw [Element.attr?, toElement]
  cases p.writtenFlags with
  | none => exact lookup_extra storable (by decide)
  | some f => rfl

/-- The flags of a point are read as they were written. -/
theorem readFlags_toElement {p : Point Float} (storable : p.Storable) :
    readFlags p.toElement = .ok p.writtenFlags := by
  have written := attr?_on_toElement storable
  unfold readFlags
  cases held : p.writtenFlags with
  | none =>
      rw [written, held]
      rfl
  | some f =>
      rw [held] at written
      obtain ⟨value, read, integral⟩ := readChars_flags f
      have number : p.toElement.number "on" = .ok value := by
        simp only [Element.number, Element.required_eq_ok written, read]
      rw [written, number]
      exact congrArg (Except.ok ∘ some) integral

/-- A point is read back as it is stored, whatever its flags were. -/
theorem ofElement_toElement_of_storable {p : Point Float} (storable : p.Storable) :
    ofElement p.toElement = .ok p.asStored := by
  have x : p.toElement.number "x" = .ok (Number.asWritten p.x) := Element.number_written rfl
  have y : p.toElement.number "y" = .ok (Number.asWritten p.y) := Element.number_written rfl
  exact ofElement_eq_ok.mpr ⟨readFlags_toElement storable, x, y, (any_writtenFlags p).symm,
    (filter_attributes_toElement storable).symm⟩

/-- What has been read is readable again. -/
theorem readable_of_ofElement {e : Element} {p : Point Float} (read : ofElement e = .ok p) :
    p.Readable := by
  obtain ⟨-, -, -, onCurve, extra⟩ := ofElement_eq_ok.mp read
  refine ⟨fun pair mem => ?_, onCurve.symm⟩
  rw [extra] at mem
  simpa using (List.mem_filter.mp mem).2

@[simp] theorem asWritten_asWritten (p : Point Float) : p.asWritten.asWritten = p.asWritten := by
  simp [asWritten, mapAxes]

@[simp] theorem toElement_asWritten (p : Point Float) : p.asWritten.toElement = p.toElement := by
  have flags : p.asWritten.writtenFlags = p.writtenFlags := rfl
  rw [toElement, toElement, flags]
  simp [asWritten, mapAxes]

/-- A point that is read back is written as before. -/
theorem Storable.toElement_asStored {p : Point Float} (storable : p.Storable) :
    p.asStored.toElement = p.toElement := by
  have flags : p.asStored.writtenFlags = p.asWritten.writtenFlags :=
    storable.readable_asStored.writtenFlags
  rw [← toElement_asWritten p, toElement, toElement, flags]
  rfl

end Point

/-! ## Contours and bounding boxes -/

/-- The bounding box that a document holds. -/
def BBox.asWritten (b : BBox Float) : BBox Float := b.mapAxes Number.asWritten Number.asWritten

theorem BBox.ofElement_toAttributes {e : Element} {b : BBox Float} {name : String}
    (attributes : e.attributes = ("name", name) :: b.toAttributes) :
    ofElement e = .ok b.asWritten := by
  obtain ⟨own, _, children⟩ := e
  cases attributes
  have number : ∀ key x, (("name", name) :: b.toAttributes).lookup key = some (written x) →
      Element.number ⟨own, ("name", name) :: b.toAttributes, children⟩ key =
        .ok (Number.asWritten x) := fun key x found => Element.number_written found
  rw [ofElement, number "xMin" b.xMin rfl, number "yMin" b.yMin rfl, number "xMax" b.xMax rfl,
    number "yMax" b.yMax rfl]
  rfl

@[simp] theorem BBox.asWritten_asWritten (b : BBox Float) :
    b.asWritten.asWritten = b.asWritten := by
  simp [asWritten, mapAxes]

@[simp] theorem BBox.toAttributes_asWritten (b : BBox Float) :
    b.asWritten.toAttributes = b.toAttributes := by
  simp [toAttributes, asWritten, mapAxes]

/-- The children of an element that has no others are found by their name. -/
theorem Markup.Element.named_of_children {e : Element} {name : String} {es : List Element}
    {others : List Node} (children : e.children = es.map toNode ++ others)
    (named : ∀ x ∈ es, x.name = name) (none : ∀ node ∈ others, node.isElement name = false) :
    e.named name = es := by
  have taken : (es.map toNode).filter (Node.isElement name) = es.map toNode := by
    rw [List.filter_eq_self]
    intro node mem
    obtain ⟨x, x_mem, rfl⟩ := List.mem_map.mp mem
    simp [named x x_mem]
  have left : others.filter (Node.isElement name) = [] := by
    rw [List.filter_eq_nil_iff]
    intro node mem
    simp [none node mem]
  rw [named_eq_filterMap, children, List.filter_append, taken, left, List.append_nil,
    Node.filterMap_map_toNode]

theorem Contour.ofElement_toElement {c : Contour Float} (storable : ∀ p ∈ c, p.Storable) :
    ofElement (toElement c) = .ok (c.map Point.asStored) := by
  have children : (toElement c).children = (c.map Point.toElement).map Element.toNode ++ [] := by
    rw [List.append_nil, List.map_map]
    rfl
  have points : (toElement c).named "pt" = c.map Point.toElement := by
    refine Element.named_of_children children ?_ fun node mem => absurd mem List.not_mem_nil
    intro x mem
    obtain ⟨p, -, rfl⟩ := List.mem_map.mp mem
    rfl
  rw [ofElement, points]
  exact mapM_map_eq_ok fun p mem => Point.ofElement_toElement_of_storable (storable p mem)

theorem Contour.toElement_map {change : Point Float → Point Float} {c : Contour Float}
    (same : ∀ p ∈ c, (change p).toElement = p.toElement) :
    toElement (c.map change) = toElement c := by
  have nodes : (c.map change).map (fun p => p.toElement.toNode) =
      c.map fun p => p.toElement.toNode := by
    rw [List.map_map]
    exact List.map_congr_left fun p mem => congrArg Element.toNode (same p mem)
  rw [toElement, toElement, nodes]

/-! ## Glyphs -/

namespace Glyph

/-- The glyph that a document holds. -/
def asWritten (g : Glyph Float) : Glyph Float :=
  { g.mapPoints Point.asWritten with bounds := g.bounds.map BBox.asWritten }

/-- The glyph that is read back: its points have the flags that they were written with. -/
def asStored (g : Glyph Float) : Glyph Float :=
  { g.mapPoints Point.asStored with bounds := g.bounds.map BBox.asWritten }

/-- Can the glyph be told from its element?  Its points have no attributes of their own among the
others, and its other nodes are no contours. -/
structure Storable {α : Type} (g : Glyph α) : Prop where
  points : ∀ c ∈ g.contours, ∀ p ∈ c, p.Storable
  other : ∀ node ∈ g.other, node.isElement contourName = false

/-- What reading ensures of a glyph: its points can be read again, and its other nodes are no
contours. -/
structure Readable {α : Type} (g : Glyph α) : Prop where
  points : ∀ c ∈ g.contours, ∀ p ∈ c, p.Readable
  other : ∀ node ∈ g.other, node.isElement contourName = false

theorem Readable.storable {α : Type} {g : Glyph α} (readable : g.Readable) : g.Storable :=
  ⟨fun c mem p p_mem => (readable.points c mem p p_mem).extra, readable.other⟩

theorem Readable.asStored {g : Glyph Float} (readable : g.Readable) : g.asStored = g.asWritten := by
  have contours : g.contours.map (·.map Point.asStored) = g.contours.map (·.map Point.asWritten) :=
    List.map_congr_left fun c mem =>
      List.map_congr_left fun p p_mem => (readable.points c mem p p_mem).asStored
  rw [Glyph.asStored, Glyph.asWritten, mapPoints, contours]
  rfl

/-- A glyph is read exactly if its name, its bounds and its contours are, with its other nodes. -/
theorem ofElement_eq_ok {e : Element} {g : Glyph Float} :
    ofElement e = .ok g ↔ e.required "name" = .ok g.name ∧ readBounds e = .ok g.bounds ∧
      (e.named contourName).mapM Contour.ofElement = .ok g.contours ∧
      g.other = e.children.filter fun node => !node.isElement contourName := by
  constructor
  · intro read
    obtain ⟨name, name_read, rest⟩ := bind_eq_ok.mp read
    obtain ⟨bounds, bounds_read, rest⟩ := bind_eq_ok.mp rest
    obtain ⟨contours, contours_read, rest⟩ := bind_eq_ok.mp rest
    cases rest
    exact ⟨name_read, bounds_read, contours_read, rfl⟩
  · rintro ⟨name, bounds, contours, other⟩
    rw [ofElement, name, bounds, contours]
    show Except.ok _ = Except.ok g
    rw [← other]

/-- A glyph is read back as it is stored. -/
theorem ofElement_toElement_of_storable {g : Glyph Float} (storable : g.Storable) :
    ofElement g.toElement = .ok g.asStored := by
  have name : g.toElement.required "name" = .ok g.name := Element.required_eq_ok rfl
  have bounds : readBounds g.toElement = .ok (g.bounds.map BBox.asWritten) := by
    unfold readBounds
    cases box : g.bounds with
    | none =>
        have absent : g.toElement.attr? "xMin" = none := by
          rw [Element.attr?, toElement, box]
          rfl
        rw [absent]
        rfl
    | some b =>
        have attributes : g.toElement.attributes = ("name", g.name) :: b.toAttributes := by
          rw [toElement, box]
          rfl
        have present : g.toElement.attr? "xMin" = some (written b.xMin) := by
          rw [Element.attr?, attributes]
          rfl
        rw [present, BBox.ofElement_toAttributes attributes]
        rfl
  have children : g.toElement.children = (g.contours.map Contour.toElement).map Element.toNode ++
      g.other := by
    rw [toElement, List.map_map]
    rfl
  have contours : g.toElement.named contourName = g.contours.map Contour.toElement := by
    refine Element.named_of_children children ?_ storable.other
    intro x mem
    obtain ⟨c, -, rfl⟩ := List.mem_map.mp mem
    rfl
  have read : (g.toElement.named contourName).mapM Contour.ofElement =
      .ok (g.contours.map (·.map Point.asStored)) := by
    rw [contours]
    exact mapM_map_eq_ok fun c mem => Contour.ofElement_toElement (storable.points c mem)
  have other : g.toElement.children.filter (fun node => !node.isElement contourName) = g.other := by
    have dropped : ((g.contours.map Contour.toElement).map Element.toNode).filter
        (fun node => !node.isElement contourName) = [] := by
      rw [List.filter_eq_nil_iff]
      intro node mem
      obtain ⟨x, x_mem, rfl⟩ := List.mem_map.mp mem
      obtain ⟨c, -, rfl⟩ := List.mem_map.mp x_mem
      simp [Contour.toElement]
    have kept : g.other.filter (fun node => !node.isElement contourName) = g.other := by
      rw [List.filter_eq_self]
      intro node mem
      simp [storable.other node mem]
    rw [children, List.filter_append, dropped, kept, List.nil_append]
  exact ofElement_eq_ok.mpr ⟨name, bounds, read, other.symm⟩

theorem ofElement_toElement {g : Glyph Float} (readable : g.Readable) :
    ofElement g.toElement = .ok g.asWritten := by
  rw [ofElement_toElement_of_storable readable.storable, readable.asStored]

/-- What has been read is readable again. -/
theorem readable_of_ofElement {e : Element} {g : Glyph Float} (read : ofElement e = .ok g) :
    g.Readable := by
  obtain ⟨-, -, all, other⟩ := ofElement_eq_ok.mp read
  refine ⟨fun c mem p p_mem => ?_, fun node mem => ?_⟩
  · obtain ⟨source, -, contour⟩ := exists_of_mem_of_mapM_eq_ok all mem
    obtain ⟨point, -, read⟩ := exists_of_mem_of_mapM_eq_ok contour p_mem
    exact Point.readable_of_ofElement read
  · rw [other] at mem
    simpa using (List.mem_filter.mp mem).2

@[simp] theorem asWritten_asWritten (g : Glyph Float) : g.asWritten.asWritten = g.asWritten := by
  simp [asWritten, mapPoints, Function.comp_def]

/-- Points that are written the same, in bounds as documents hold them. -/
theorem toElement_mapPoints {change : Point Float → Point Float} {g : Glyph Float}
    (same : ∀ c ∈ g.contours, ∀ p ∈ c, (change p).toElement = p.toElement) :
    toElement { g.mapPoints change with bounds := g.bounds.map BBox.asWritten } = g.toElement := by
  have nodes : (g.contours.map (·.map change)).map (fun c => (Contour.toElement c).toNode) =
      g.contours.map fun c => (Contour.toElement c).toNode := by
    rw [List.map_map]
    exact List.map_congr_left fun c mem =>
      congrArg Element.toNode (Contour.toElement_map (same c mem))
  have bounds : (g.bounds.map BBox.asWritten).map BBox.toAttributes =
      g.bounds.map BBox.toAttributes := by
    rw [Option.map_map]
    congr 1
    funext b
    exact BBox.toAttributes_asWritten b
  rw [toElement, toElement, mapPoints, nodes, bounds]

@[simp] theorem toElement_asWritten (g : Glyph Float) : g.asWritten.toElement = g.toElement :=
  toElement_mapPoints fun _ _ p _ => p.toElement_asWritten

/-- A glyph that is read back is written as before. -/
theorem Storable.toElement_asStored {g : Glyph Float} (storable : g.Storable) :
    g.asStored.toElement = g.toElement :=
  toElement_mapPoints fun c mem p p_mem => (storable.points c mem p p_mem).toElement_asStored

end Glyph

end SymbolFont
