/-
# Records in documents that are read again

Records that were read from elements that a document keeps are written as such elements: a
number needs no escapes, and the attributes of a point do not meet.  What is written is then
read in its normal form, and all that this changes of a record are the other nodes of a glyph.
-/

import Mathlib.Tactic.Common
import SymbolFont.Proofs.Glyph.Record
import SymbolFont.Proofs.Markup.Normal
import SymbolFont.Proofs.Number.Text

namespace SymbolFont

open Markup Number

/-! ## Values -/

/-- A number is a value that is kept. -/
theorem isKeptValue_of_isNumeric {cs : List Char} (numeric : ∀ c ∈ cs, isNumeric c = true) :
    isKeptValue cs = true := by
  rw [isKeptValue, List.all_eq_true]
  intro c mem
  have marks : "-.Nainf".toList.all (fun c => Version.v10.allows c && c != '\t') = true := by decide
  rcases Bool.or_eq_true_iff.mp (numeric c mem) with digit | mark
  · simp only [Char.isDigit, Bool.and_eq_true, decide_eq_true_eq, ge_iff_le,
      UInt32.le_iff_toNat_le] at digit
    have low : 48 ≤ c.toNat := digit.1
    have high : c.toNat ≤ 57 := digit.2
    have no_tab : c ≠ '\t' := by
      rintro rfl
      exact absurd low (by decide)
    simp only [Version.allows, no_tab, bne_iff_ne, Bool.and_eq_true, Bool.or_eq_true,
      decide_eq_true_eq, ne_eq, not_false_eq_true, and_true]
    exact .inr (by omega)
  · exact List.all_eq_true.mp marks c (List.contains_iff_mem.mp mark)

theorem isKeptValue_written (x : Float) : isKeptValue (written x).toList = true :=
  isKeptValue_of_isNumeric fun _ mem => isNumeric_of_mem_written mem

theorem isKeptValue_toString (n : Nat) : isKeptValue (toString n).toList = true :=
  isKeptValue_of_isNumeric fun _ mem => isNumeric_of_mem_toString mem

/-- The values of an element that is kept are kept. -/
theorem isKeptValue_of_required {e : Element} {key value : String} (kept : e.meets .kept = true)
    (found : e.required key = .ok value) : isKeptValue value.toList = true := by
  obtain ⟨-, attributes⟩ := Bool.and_eq_true_iff.mp (Element.meets_iff.mp kept).1
  unfold Element.required at found
  split at found
  · rename_i held looked_up
    cases found
    obtain ⟨before, after, split, -⟩ := List.lookup_eq_some_iff.mp looked_up
    have all := (Bool.and_eq_true_iff.mp attributes).2
    have mem : (key, value) ∈ e.attributes := split ▸ List.mem_append_right _ List.mem_cons_self
    exact (Bool.and_eq_true_iff.mp (List.all_eq_true.mp all _ mem)).2
  · cases found

/-! ## Metrics -/

namespace Metric

theorem meets_toElement {m : Metric Float} (name : isKeptValue m.name.toList = true) :
    m.toElement.meets .kept = true := by
  refine Element.meets_iff.mpr ⟨?_, fun _ mem => absurd mem List.not_mem_nil⟩
  have attributes : areKeptAttributes m.toElement.attributes = true := by
    simp only [toElement, areKeptAttributes_cons, name, isKeptValue_written, List.map_cons,
      List.map_nil]
    decide
  exact Bool.and_eq_true_iff.mpr ⟨(by decide : isPlainName elementName = true), attributes⟩

theorem isKeptValue_name {e : Element} {m : Metric Float} (kept : e.meets .kept = true)
    (read : ofElement e = .ok m) : isKeptValue m.name.toList = true := by
  exact isKeptValue_of_required kept (ofElement_eq_ok.mp read).1

end Metric

/-! ## Entries of the character map -/

theorem CharMapEntry.isKeptValue_name {e : Element} {entry : CharMapEntry}
    (kept : e.meets .kept = true) (read : ofElement e = .ok entry) :
    isKeptValue entry.name.toList = true := by
  exact isKeptValue_of_required kept (ofElement_eq_ok.mp read).1

/-! ## Points -/

namespace Point

/-- The element of a point is kept if its other attributes are. -/
theorem meets_toElement {p : Point Float} (readable : p.Readable)
    (extra : areKeptAttributes p.extra = true) : p.toElement.meets .kept = true := by
  have apart : ∀ key ∈ pointKeys, key ∉ p.extra.map Prod.fst := by
    intro key own mem
    obtain ⟨pair, pair_mem, rfl⟩ := List.mem_map.mp mem
    exact readable.extra pair pair_mem own
  have x := apart "x" (by decide)
  have y := apart "y" (by decide)
  have on := apart "on" (by decide)
  have attributes : areKeptAttributes p.toElement.attributes = true := by
    rw [toElement]
    cases p.writtenFlags with
    | none =>
        simp only [Option.map_none, Option.toList_none, List.append_nil, List.cons_append,
          List.nil_append, areKeptAttributes_cons, isKeptValue_written, extra, List.map_cons,
          List.mem_cons, x, y]
        decide
    | some flags =>
        simp only [Option.map_some, Option.toList_some, List.cons_append, List.nil_append,
          areKeptAttributes_cons, isKeptValue_written, isKeptValue_toString, extra, List.map_cons,
          List.mem_cons, x, y, on]
        decide
  have name : isPlainName "pt" = true := by decide
  exact Element.meets_iff.mpr
    ⟨Bool.and_eq_true_iff.mpr ⟨name, attributes⟩, fun _ mem => absurd mem List.not_mem_nil⟩

/-- The other attributes of a point are kept where they come from. -/
theorem areKeptAttributes_extra {e : Element} {p : Point Float} (kept : e.meets .kept = true)
    (read : ofElement e = .ok p) : areKeptAttributes p.extra = true := by
  obtain ⟨-, -, -, -, extra⟩ := ofElement_eq_ok.mp read
  obtain ⟨-, attributes⟩ := Bool.and_eq_true_iff.mp (Element.meets_iff.mp kept).1
  obtain ⟨distinct, all⟩ := Bool.and_eq_true_iff.mp attributes
  rw [decide_eq_true_eq] at distinct
  rw [extra]
  refine Bool.and_eq_true_iff.mpr ⟨decide_eq_true ?_, ?_⟩
  · exact distinct.sublist (List.filter_sublist.map _)
  · rw [List.all_eq_true] at all ⊢
    exact fun pair mem => all pair (List.mem_filter.mp mem).1

end Point

/-! ## Glyphs -/

namespace Glyph

/-- Are the parts of a glyph that a document holds as they are ones that it keeps? -/
structure IsKept (g : Glyph Float) : Prop where
  name : isKeptValue g.name.toList = true
  points : ∀ c ∈ g.contours, ∀ p ∈ c, areKeptAttributes p.extra = true
  other : ∀ node ∈ g.other, node.meets .kept = true

/-- The element of a glyph is kept if its parts are. -/
theorem meets_toElement {g : Glyph Float} (readable : g.Readable) (kept : g.IsKept) :
    g.toElement.meets .kept = true := by
  have attributes : areKeptAttributes g.toElement.attributes = true := by
    rw [toElement]
    cases g.bounds with
    | none =>
        simp only [Option.map_none, Option.getD_none, areKeptAttributes_cons, kept.name]
        decide
    | some b =>
        simp only [Option.map_some, Option.getD_some, BBox.toAttributes, areKeptAttributes_cons,
          kept.name, isKeptValue_written, List.map_cons, List.map_nil]
        decide
  have name : isPlainName elementName = true := by decide
  refine Element.meets_iff.mpr ⟨Bool.and_eq_true_iff.mpr ⟨name, attributes⟩, fun node mem => ?_⟩
  rcases List.mem_append.mp mem with contour | other
  · obtain ⟨c, c_mem, rfl⟩ := List.mem_map.mp contour
    have tag : Demands.kept.tag contourName [] = true := by decide
    refine Element.meets_iff.mpr ⟨tag, fun point point_mem => ?_⟩
    obtain ⟨p, p_mem, rfl⟩ := List.mem_map.mp point_mem
    exact Point.meets_toElement (readable.points c c_mem p p_mem) (kept.points c c_mem p p_mem)
  · exact kept.other node other

/-- A glyph that was read from an element that is kept has such parts. -/
theorem isKept_of_ofElement {e : Element} {g : Glyph Float} (kept : e.meets .kept = true)
    (read : ofElement e = .ok g) : g.IsKept := by
  obtain ⟨required, -, all, other⟩ := ofElement_eq_ok.mp read
  refine ⟨isKeptValue_of_required kept required, fun c mem p p_mem => ?_, fun node mem => ?_⟩
  · obtain ⟨source, source_mem, contour⟩ := exists_of_mem_of_mapM_eq_ok all mem
    obtain ⟨point, point_mem, read⟩ := exists_of_mem_of_mapM_eq_ok contour p_mem
    exact Point.areKeptAttributes_extra
      (Element.meets_of_mem_named (Element.meets_of_mem_named kept source_mem) point_mem) read
  · rw [other] at mem
    exact (Element.meets_iff.mp kept).2 node (List.mem_filter.mp mem).1

end Glyph

/-! ## Records in the normal form -/

section Normal

variable (e : Element)

theorem CharMapEntry.ofElement_normal : ofElement e.normal = ofElement e := rfl

theorem Metric.ofElement_normal : ofElement e.normal = ofElement e := rfl

theorem Point.ofElement_normal : ofElement e.normal = ofElement e := rfl

/-- Texts between the points of a contour make no difference. -/
theorem Contour.ofElement_normal : ofElement e.normal = ofElement e := by
  have points : Point.ofElement ∘ Element.normal = Point.ofElement :=
    funext Point.ofElement_normal
  rw [ofElement, Element.named_normal, List.mapM_map, points]
  rfl

end Normal

namespace Glyph

/-- The glyph that is read when its element is written: its other nodes are in their normal
form. -/
def asRead (g : Glyph Float) : Glyph Float :=
  { g.asWritten with other := Node.normalList [] g.other }

/-- Nothing changes of a glyph with other nodes that are tidy. -/
theorem asRead_of_areTidy {g : Glyph Float} (tidy : Node.areTidy false g.other = true) :
    g.asRead = g.asWritten := by
  have other : Node.normalList [] g.other = g.other :=
    Node.normalList_of_areTidy [] g.other (fun _ => rfl) tidy
  rw [asRead, other]
  rfl

/-- In the normal form only the other nodes of a glyph change. -/
theorem ofElement_normal (e : Element) :
    ofElement e.normal = (ofElement e).map fun g =>
      { g with other := e.normal.children.filter fun node => !node.isElement contourName } := by
  have name : e.normal.required "name" = e.required "name" := rfl
  have bounds : readBounds e.normal = readBounds e := rfl
  have contours : (e.normal.named contourName).mapM Contour.ofElement =
      (e.named contourName).mapM Contour.ofElement := by
    rw [Element.named_normal, List.mapM_map]
    congr 1
    funext c
    exact Contour.ofElement_normal c
  rw [ofElement, ofElement, name, bounds, contours]
  cases e.required "name" with
  | error fault => rfl
  | ok name => cases readBounds e with
    | error fault => rfl
    | ok bounds => cases (e.named contourName).mapM Contour.ofElement <;> rfl

theorem ofElement_normal_toElement {g : Glyph Float} (readable : g.Readable) :
    ofElement g.toElement.normal = .ok g.asRead := by
  have children : g.toElement.normal.children =
      ((g.contours.map Contour.toElement).map fun e => e.toNode.normal) ++
        Node.normalList [] g.other := by
    rw [← Node.normalList_map_toNode_append, List.map_map]
    rfl
  have dropped : ((g.contours.map Contour.toElement).map fun e => e.toNode.normal).filter
      (fun node => !node.isElement contourName) = [] := by
    rw [List.filter_eq_nil_iff]
    intro node mem
    obtain ⟨e, e_mem, rfl⟩ := List.mem_map.mp mem
    obtain ⟨c, -, rfl⟩ := List.mem_map.mp e_mem
    simp [Contour.toElement, Element.toNode, Node.normal, Node.isElement]
  have left : (Node.normalList [] g.other).filter (fun node => !node.isElement contourName) =
      Node.normalList [] g.other := by
    rw [List.filter_eq_self]
    intro node mem
    rw [Node.not_isElement_of_mem_normalList [] g.other readable.other node mem]
    rfl
  rw [ofElement_normal, ofElement_toElement readable, children, List.filter_append, dropped, left]
  rfl

end Glyph

end SymbolFont
