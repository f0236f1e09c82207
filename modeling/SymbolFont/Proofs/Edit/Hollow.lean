/-
# What is left inside number glyphs

Something is drawn inside a glyph by its contours, and by components, which stand for the outlines
of other glyphs.  The standard revision takes the contours out of number glyphs, but leaves their
other nodes as they are.  So a number glyph comes out hollow exactly if it had no components.
-/

import SymbolFont.Proofs.Edit.Distinct
import SymbolFont.Proofs.Font.Reload
import SymbolFont.Proofs.Markup.Place

namespace SymbolFont

open Markup

/-- The name of elements that stand for the outline of another glyph. -/
def componentName : String := "component"

/-- Is the element of a glyph without anything that is drawn? -/
structure Markup.Element.IsHollow (e : Element) : Prop where
  contours : e.named contourName = []
  components : e.named componentName = []

/-- How the standard revision leaves a number glyph: without contours, but with its bounding box
and its other nodes. -/
structure Glyph.Hollowed (before after : Glyph Float) : Prop where
  name : after.name = corrected before.name
  bounds : after.bounds = before.bounds
  attributes : after.toElement.attributes =
    ("name", corrected before.name) :: (before.bounds.map BBox.toAttributes).getD []
  children : after.toElement.children = before.other.map (Node.mapValues corrected)
  hollow_iff : after.toElement.IsHollow ↔ ∀ node ∈ before.other,
    node.isElement contourName = false ∧ node.isElement componentName = false

/-! ## Nodes by name -/

namespace Markup.Element

variable {e : Element} {name : String}

theorem named_eq_nil_iff :
    e.named name = [] ↔ ∀ node ∈ e.children, node.isElement name = false := by
  rw [← List.length_eq_zero_iff, length_named, List.countP_eq_zero]
  simp only [Bool.not_eq_true]

theorem named_congr {e' : Element} (children : e.children = e'.children) :
    e.named name = e'.named name := by
  rw [named, named, elements, elements, children]

/-- Leaving out the elements of another name makes no difference. -/
theorem named_filter_of_ne {other : String} (differ : name ≠ other) {e' : Element}
    (children : e'.children = e.children.filter fun node => !node.isElement other) :
    e'.named name = e.named name := by
  rw [named_eq_filterMap, named_eq_filterMap, children, List.filter_filter]
  congr 1
  refine List.filter_congr fun node _ => ?_
  cases node with
  | element own attributes nodes =>
      by_cases hit : own = name
      · have kept : own ≠ other := fun same => differ (hit.symm.trans same)
        simp [Node.isElement, kept]
      · simp [Node.isElement, hit]
  | text content => rfl
  | comment content => rfl

end Markup.Element

/-! ## Number glyphs -/

/-- A number glyph is hollow after the revision if it had nothing drawn but its contours. -/
theorem Glyph.Revised.hollowed {factor : Float} {before after : Glyph Float}
    (revised : Revised factor before after) (numeral : after.cls = .numeral) :
    Hollowed before after := by
  have numeral' : GlyphClass.of (corrected before.name) = .numeral := revised.name ▸ numeral
  obtain ⟨empty, bounds⟩ := revised.numeral numeral'
  have children : after.toElement.children = before.other.map (Node.mapValues corrected) := by
    rw [toElement, empty, ← revised.other]
    rfl
  refine ⟨revised.name, bounds, ?_, children, ?_⟩
  · rw [toElement, revised.name, bounds]
  · have nodes (name : String) : after.toElement.named name = [] ↔
        ∀ node ∈ before.other, node.isElement name = false := by
      rw [Element.named_eq_nil_iff, children, List.forall_mem_map]
      simp only [Node.isElement_mapValues]
    constructor
    · rintro ⟨contours, components⟩ node mem
      exact ⟨(nodes _).mp contours node mem, (nodes _).mp components node mem⟩
    · intro plain
      exact ⟨(nodes _).mpr fun node mem => (plain node mem).1,
        (nodes _).mpr fun node mem => (plain node mem).2⟩

/-- The standard revision makes of a glyph what it makes of it alone, or replaces it. -/
theorem revised_of_run_standardEdits {template : BoxTemplate} {scale width : Float}
    {f f' : Font Float} (result : Edit.run (standardEdits template scale width) f = .ok f')
    {i : Nat} {g g' : Glyph Float} (before : f.glyphs[i]? = some g)
    (after : f'.glyphs[i]? = some g') : g' = template.glyph ∨ Glyph.Revised scale g g' := by
  rw [Edit.run_standardEdits] at result
  split at result
  · rename_i edited replaced
    cases result
    obtain ⟨_, -, rfl⟩ := Option.map_eq_some_iff.mp replaced
    simp only [Font.resetWidths, Font.rescale, Font.hollowNumerals, Font.setBoxWidth,
      List.getElem?_map, Font.getElem?_modifyGlyph, Font.correctNames, before, Option.map_some,
      Option.some.injEq] at after
    by_cases first : g.correctNames.name = boxName ∧
        ∀ earlier ∈ (f.glyphs.map Glyph.correctNames).take i, earlier.name ≠ boxName
    · rw [if_pos first] at after
      exact .inl (after.symm.trans (Font.hollow_rescale_template template scale))
    · rw [if_neg first] at after
      exact .inr (after ▸ Glyph.revised_revise scale g)
  · cases result

/-- The glyph of a template is no number glyph, so number glyphs are left as the revision leaves
them. -/
theorem hollowed_of_run_standardEdits {template : BoxTemplate} {scale width : Float}
    {f f' : Font Float} (result : Edit.run (standardEdits template scale width) f = .ok f')
    {i : Nat} {g g' : Glyph Float} (before : f.glyphs[i]? = some g)
    (after : f'.glyphs[i]? = some g') (numeral : g'.cls = .numeral) : g.Hollowed g' := by
  rcases revised_of_run_standardEdits result before after with rfl | revised
  · have box : template.glyph.cls = .box := (GlyphClass.of_eq_box_iff _).mpr template.name_eq
    rw [box] at numeral
    cases numeral
  · exact revised.hollowed numeral

/-- The document of a revised font has the tables of the one before. -/
theorem child?_document_of_run_standardEdits {template : BoxTemplate} {scale width : Float}
    {f f' : Font Float} (result : Edit.run (standardEdits template scale width) f = .ok f')
    (name : String) :
    f'.document.child? name = (f.document.child? name).map (Element.mapValues corrected) := by
  rw [Edit.run_standardEdits] at result
  split at result
  · rename_i edited replaced
    cases result
    obtain ⟨_, -, rfl⟩ := Option.map_eq_some_iff.mp replaced
    exact Element.child?_mapValues corrected f.document name
  · cases result

/-- A number glyph that was read is left with the components of its element, and nothing else
that is drawn. -/
theorem Glyph.Hollowed.named_of_ofElement {e : Element} {g g' : Glyph Float}
    (hollowed : g.Hollowed g') (read : ofElement e = .ok g) :
    g'.toElement.named contourName = [] ∧
      g'.toElement.named componentName =
        (e.named componentName).map (Element.mapValues corrected) := by
  obtain ⟨-, -, -, other⟩ := ofElement_eq_ok.mp read
  have children : g'.toElement.children =
      (({ e with children := g.other } : Element).mapValues corrected).children := by
    rw [hollowed.children, ← Node.mapValuesList_eq_map]
    rfl
  constructor
  · rw [Element.named_congr children, Element.named_mapValues, List.map_eq_nil_iff,
      Element.named_eq_nil_iff]
    intro node mem
    rw [other, List.mem_filter] at mem
    simpa using mem.2
  · have different : componentName ≠ contourName := by decide
    rw [Element.named_congr children, Element.named_mapValues,
      Element.named_filter_of_ne different other]

/-! ## Fonts -/

/-- Number glyphs after the standard revision.  Each is in its place, with its corrected name, its
bounding box and its other nodes, and without contours.  So what is written for it is hollow
exactly if there was neither a component nor a stray contour among its other nodes; and for a
font that was read from a document, this is whether the glyph had no components there. -/
theorem numerals_hollow_iff_no_components {read : ReadFile} {o : EditOptions} {edits : List Edit}
    {notes : List Event} {f f' : Font Float} (built : o.edits read = .ok (edits, notes))
    (result : Edit.run edits f = .ok f') :
    f'.glyphs.length = f.glyphs.length ∧
    (∀ outlines, f.document.child? Font.outlinesName = some outlines →
      ∃ written, f'.toDocument.child? Font.outlinesName = some written ∧
        written.named Glyph.elementName = f'.glyphs.map Glyph.toElement) ∧
    ∀ (i : Nat) (g g' : Glyph Float), f.glyphs[i]? = some g → f'.glyphs[i]? = some g' →
      g'.cls = .numeral →
      g.Hollowed g' ∧
      ∀ document outlines e, Font.ofDocument document = .ok f →
        document.child? Font.outlinesName = some outlines →
        (outlines.named Glyph.elementName)[i]? = some e →
        g'.toElement.named componentName =
            (e.named componentName).map (Element.mapValues corrected) ∧
          (g'.toElement.IsHollow ↔ e.named componentName = []) := by
  obtain ⟨template, rfl⟩ := exists_template_of_edits built
  refine ⟨?_, fun outlines found => ?_, fun i g g' before after numeral => ?_⟩
  · have names := congrArg List.length (map_name_of_run_standardEdits result)
    simpa using names
  · have found' : f'.document.child? Font.outlinesName = some (outlines.mapValues corrected) := by
      rw [child?_document_of_run_standardEdits result, found, Option.map_some]
    refine ⟨_, Font.child?_outlinesName_toDocument found', ?_⟩
    exact Element.named_replaceNamed _ fun _ mem => Font.name_of_mem_glyphElements mem
  · have hollowed := hollowed_of_run_standardEdits result before after numeral
    refine ⟨hollowed, fun document outlines e source found at_e => ?_⟩
    have glyph_read := Font.ofElement_of_ofDocument source found at_e before
    obtain ⟨contours, components⟩ := hollowed.named_of_ofElement glyph_read
    refine ⟨components, fun hollow => ?_, fun none => ⟨contours, ?_⟩⟩
    · exact List.map_eq_nil_iff.mp (components.symm.trans hollow.components)
    · rw [components, none, List.map_nil]

/-! ## A number glyph in a font with a box -/

/-- A document with a box and a number glyph that holds the nodes. -/
def numberDocument (nodes : List Node) : Element where
  name := "ttFont"
  children :=
    [.element "cmap" [] [.element "cmap_format_12" [] []],
    .element "glyf" []
      [.element "TTGlyph" [("name", "SWM")] [],
      .element "TTGlyph"
        [("name", "SW 250"), ("xMin", "0"), ("yMin", "0"), ("xMax", "10"), ("yMax", "10")] nodes],
    .element "hmtx" [] []]

/-- The standard revision of such a font has a number glyph in the second place. -/
theorem exists_revision_of_numberDocument {nodes : List Node} {number : Glyph Float}
    (read : Font.glyphs <$> Font.ofDocument (numberDocument nodes) =
      .ok [{ name := "SWM" }, number]) (named : number.name = "SW 250") :
    ∃ f f' g', Font.ofDocument (numberDocument nodes) = .ok f ∧ f.glyphs[1]? = some number ∧
      Edit.run (standardEdits sampleTemplate scaleFactor boxWidth) f = .ok f' ∧
      f'.glyphs[1]? = some g' ∧ g'.cls = .numeral := by
  obtain ⟨f, source, glyphs⟩ := exists_of_map_eq_ok read
  have box : ({ name := "SWM" } : Glyph Float) ∈ f.glyphs := glyphs ▸ List.mem_cons_self
  obtain ⟨f', result⟩ :=
    exists_run_standardEdits sampleTemplate scaleFactor boxWidth box (by decide)
  have names := map_name_of_run_standardEdits result
  rw [glyphs] at names
  obtain ⟨first, rest, glyphs', -, names⟩ := List.map_eq_cons_iff.mp names
  obtain ⟨g', rest, rfl, name, -⟩ := List.map_eq_cons_iff.mp names
  refine ⟨f, f', g', source, by rw [glyphs]; rfl, result, by rw [glyphs']; rfl, ?_⟩
  rw [Glyph.cls, name, named]
  decide

/-- A number glyph with a contour and instructions keeps its box and its instructions. -/
theorem numerals_hollow_iff_no_components_of_contour :
    let nodes : List Node := [.element "contour" [] [], .element "instructions" [] []]
    ∃ edits notes f f' g', templateOptions.edits readTemplate = .ok (edits, notes) ∧
      Font.ofDocument (numberDocument nodes) = .ok f ∧ Edit.run edits f = .ok f' ∧
      f'.glyphs[1]? = some g' ∧ g'.cls = .numeral ∧ g'.name = "SW250" ∧
      g'.bounds = some ⟨0, 0, 10, 10⟩ ∧ g'.toElement.IsHollow ∧
      g'.toElement.children = [.element "instructions" [] []] := by
  intro nodes
  let number : Glyph Float :=
    { name := "SW 250", bounds := some ⟨0, 0, 10, 10⟩, contours := [[]]
      other := [.element "instructions" [] []] }
  have read : Font.glyphs <$> Font.ofDocument (numberDocument nodes) =
      .ok [{ name := "SWM" }, number] := by decide +kernel
  obtain ⟨f, f', g', source, before, result, after, numeral⟩ :=
    exists_revision_of_numberDocument read rfl
  obtain ⟨-, -, each⟩ := numerals_hollow_iff_no_components edits_templateOptions result
  obtain ⟨hollowed, of_source⟩ := each 1 number g' before after numeral
  obtain ⟨-, hollow_iff⟩ := of_source _ _ _ source rfl rfl
  exact ⟨_, _, f, f', g', edits_templateOptions, source, result, after, numeral,
    hollowed.name.trans (by decide), hollowed.bounds, hollow_iff.mpr (by decide),
    hollowed.children.trans (by decide)⟩

/-- A component of a number glyph is still there after the revision, and stands in what is
written. -/
theorem component_left_in_numeral :
    let component : Element := ⟨"component", [("glyphName", "A"), ("x", "0"), ("y", "0")], []⟩
    ∃ edits notes f f' g' written, templateOptions.edits readTemplate = .ok (edits, notes) ∧
      Font.ofDocument (numberDocument [component.toNode]) = .ok f ∧ Edit.run edits f = .ok f' ∧
      f'.glyphs[1]? = some g' ∧ g'.cls = .numeral ∧
      f'.toDocument.child? Font.outlinesName = some written ∧
      (written.named Glyph.elementName)[1]? = some g'.toElement ∧
      g'.toElement.named componentName = [component] := by
  intro component
  let number : Glyph Float :=
    { name := "SW 250", bounds := some ⟨0, 0, 10, 10⟩, other := [component.toNode] }
  have read : Font.glyphs <$> Font.ofDocument (numberDocument [component.toNode]) =
      .ok [{ name := "SWM" }, number] := by decide +kernel
  obtain ⟨f, f', g', source, before, result, after, numeral⟩ :=
    exists_revision_of_numberDocument read rfl
  have hollowed := hollowed_of_run_standardEdits result before after numeral
  have glyph_read := Font.ofElement_of_ofDocument source rfl rfl before
  obtain ⟨-, components⟩ := hollowed.named_of_ofElement glyph_read
  have document : f.document = numberDocument [component.toNode] :=
    (Font.ofDocument_eq_ok.mp source).1
  have found : f'.document.child? Font.outlinesName =
      ((numberDocument [component.toNode]).child? Font.outlinesName).map
        (Element.mapValues corrected) := by
    rw [child?_document_of_run_standardEdits result, document]
  refine ⟨_, _, f, f', g', _, edits_templateOptions, source, result, after, numeral,
    Font.child?_outlinesName_toDocument found, ?_, components.trans (by decide)⟩
  rw [Element.named_replaceNamed _ fun _ mem => Font.name_of_mem_glyphElements mem,
    List.getElem?_map, after]
  rfl

end SymbolFont
