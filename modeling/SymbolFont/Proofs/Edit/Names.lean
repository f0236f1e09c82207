/-
# What correcting names does

Names are corrected in the records, in the nodes that glyphs carry along and in the rest of the
document, each in its place.  What is written is nevertheless the document with every value
corrected, as if this had been done to its text, so that all that refers to a glyph still does.

Only one space is taken out of a name.  So a second correction finds work exactly where a text
has two of them behind the marker.
-/

import Mathlib.Tactic.Common
import SymbolFont.Edit.Names
import SymbolFont.Proofs.Edit.Reload
import SymbolFont.Proofs.Font.Splice
import SymbolFont.Proofs.Glyph.Class
import SymbolFont.Proofs.Markup.Values

namespace SymbolFont

open Markup

/-! ## Single names -/

/-- A text that begins with a marker is the marker with a rest. -/
theorem exists_eq_append {marker text : String} (prefixed : marker.toList <+: text.toList) :
    ∃ rest, text = marker ++ rest := by
  obtain ⟨rest, split⟩ := prefixed
  refine ⟨String.ofList rest, ?_⟩
  rw [← String.toList_inj, ← split]
  simp

theorem corrected_append (rest : String) : corrected ("SW " ++ rest) = "SW" ++ rest := by
  have text : ("SW " ++ rest).toList = 'S' :: 'W' :: ' ' :: rest.toList := by simp
  have fixed : corrected? ("SW " ++ rest) =
      some (String.ofList ('S' :: 'W' :: rest.toList)) := by
    rw [corrected?, text]
    rfl
  rw [corrected, fixed, Option.getD_some, ← String.toList_inj]
  simp

/-- There is only one way to take the space out. -/
theorem eq_corrected {fix : String → String} (marked : ∀ rest, fix ("SW " ++ rest) = "SW" ++ rest)
    (unmarked : ∀ text : String, ¬ "SW ".toList <+: text.toList → fix text = text) :
    fix = corrected := by
  funext text
  by_cases prefixed : "SW ".toList <+: text.toList
  · obtain ⟨rest, rfl⟩ := exists_eq_append prefixed
    rw [marked, corrected_append]
  · rw [unmarked text prefixed, corrected_eq_self prefixed]

/-- A second correction changes a name with two spaces, and no other. -/
theorem corrected_corrected_eq_iff (name : String) :
    corrected (corrected name) = corrected name ↔ ¬ "SW  ".toList <+: name.toList := by
  constructor
  · intro settled wide
    obtain ⟨rest, rfl⟩ := exists_eq_append wide
    have front : "SW  " ++ rest = "SW " ++ (" " ++ rest) := by
      rw [← String.append_assoc]
      rfl
    have joined : "SW" ++ (" " ++ rest) = "SW " ++ rest := by
      rw [← String.append_assoc]
      rfl
    rw [front, corrected_append, joined, corrected_append] at settled
    have lengths := congrArg (fun text => text.toList.length) settled
    simp at lengths
  · intro single
    by_cases prefixed : "SW ".toList <+: name.toList
    · obtain ⟨rest, rfl⟩ := exists_eq_append prefixed
      rw [corrected_append]
      apply corrected_eq_self
      rintro ⟨more, again⟩
      apply single
      refine ⟨more, ?_⟩
      have tail : ' ' :: more = rest.toList := by simpa using again
      simp [← tail]
    · rw [corrected_eq_self prefixed, corrected_eq_self prefixed]

/-- Correcting a name leaves the marker in it, and brings none into a name without it. -/
theorem isExtension_corrected (name : String) :
    (GlyphClass.of (corrected name)).isExtension = (GlyphClass.of name).isExtension := by
  rw [GlyphClass.isExtension_of, GlyphClass.isExtension_of]
  by_cases prefixed : "SW ".toList <+: name.toList
  · obtain ⟨rest, rfl⟩ := exists_eq_append prefixed
    rw [corrected_append, String.toList_append, String.toList_append]
    rfl
  · rw [corrected_eq_self prefixed]

/-- Numbers are no names to be corrected. -/
theorem corrected_of_isNumeric {text : String}
    (numeric : ∀ c ∈ text.toList, Number.isNumeric c = true) : corrected text = text := by
  apply corrected_eq_self
  rintro ⟨rest, split⟩
  have space : ' ' ∈ text.toList := by
    rw [← split]
    simp
  exact absurd (numeric ' ' space) (by decide)

@[simp] theorem corrected_written (x : Float) : corrected (Number.written x) = Number.written x :=
  corrected_of_isNumeric fun _ mem => Number.isNumeric_of_mem_written mem

@[simp] theorem corrected_toString (n : Nat) : corrected (toString n) = toString n :=
  corrected_of_isNumeric fun _ mem => Number.isNumeric_of_mem_toString mem

/-! ## Correcting a second time -/

namespace Font

variable {α : Type}

/-- The texts in which names are corrected: the names of the records, and all values in the
nodes that glyphs carry along and in the document. -/
def nameTexts (f : Font α) : List String :=
  f.charMap.map CharMapEntry.name ++
    (f.glyphs.flatMap fun g => g.name :: Node.valuesList g.other) ++
    f.metrics.map Metric.name ++ f.document.values

theorem entry_corrected_twice_iff (e : CharMapEntry) :
    (e.rename (corrected e.name)).rename (corrected (corrected e.name)) =
        e.rename (corrected e.name) ↔ corrected (corrected e.name) = corrected e.name := by
  simp [CharMapEntry.rename]

theorem metric_corrected_twice_iff (m : Metric α) :
    (m.rename (corrected m.name)).rename (corrected (corrected m.name)) =
        m.rename (corrected m.name) ↔ corrected (corrected m.name) = corrected m.name := by
  simp [Metric.rename]

theorem glyph_corrected_twice_iff (g : Glyph α) :
    g.correctNames.correctNames = g.correctNames ↔
      ∀ text ∈ g.name :: Node.valuesList g.other, corrected (corrected text) = corrected text := by
  obtain ⟨name, bounds, contours, other⟩ := g
  simp [Glyph.correctNames, Glyph.rename, Node.mapValuesList_mapValuesList,
    Node.mapValuesList_eq_iff]

/-- Correcting the names of a font a second time changes nothing exactly if none of the texts
has two spaces behind a leading marker. -/
theorem correctNames_correctNames_eq_iff (f : Font α) :
    f.correctNames.correctNames = f.correctNames ↔
      ∀ text ∈ f.nameTexts, ¬ "SW  ".toList <+: text.toList := by
  obtain ⟨charMap, glyphs, metrics, document⟩ := f
  have tree : (document.mapValues corrected).mapValues corrected = document.mapValues corrected ↔
      ∀ text ∈ document.values, corrected (corrected text) = corrected text := by
    rw [Element.mapValues_mapValues, Element.mapValues_eq_iff]
  simp only [← corrected_corrected_eq_iff, nameTexts, List.forall_mem_append, List.forall_mem_map,
    List.forall_mem_flatMap, ← tree, ← entry_corrected_twice_iff, ← metric_corrected_twice_iff,
    ← glyph_corrected_twice_iff]
  simp only [correctNames, mk.injEq, List.map_map, List.map_inj_left, Function.comp, and_assoc]
  rfl

/-- A document with a name that is still wrong when it has been corrected once. -/
def widelySpacedDocument : Element where
  name := "ttFont"
  children :=
    [.element "cmap" [] [.element "cmap_format_12" []
      [.element "map" [("code", "0x40"), ("name", "SW  250")] []]],
    .element "glyf" [] [.element "TTGlyph" [("name", "SW  250")] []], .element "hmtx" [] []]

/-- Its names are correct only behind the second correction. -/
theorem correctNames_twice_of_two_spaces :
    ∃ f, ofDocument widelySpacedDocument = .ok f ∧
      f.correctNames.glyphs.map Glyph.name = ["SW 250"] ∧
      f.correctNames.correctNames.glyphs.map Glyph.name = ["SW250"] ∧
      f.correctNames.correctNames ≠ f.correctNames := by
  let f : Font Float :=
    { charMap := [⟨"SW  250", "0x40"⟩], glyphs := [{ name := "SW  250" }], metrics := []
      document := widelySpacedDocument }
  have once : f.correctNames.glyphs.map Glyph.name = ["SW 250"] := by decide
  have twice : f.correctNames.correctNames.glyphs.map Glyph.name = ["SW250"] := by decide
  refine ⟨f, rfl, once, twice, fun settled => ?_⟩
  rw [settled, once] at twice
  exact absurd twice (by decide)

end Font

/-! ## Correcting what is written -/

theorem BBox.map_toAttributes (b : BBox Float) :
    b.toAttributes.map (fun (key, value) => (key, corrected value)) = b.toAttributes := by
  simp only [toAttributes, List.map_cons, List.map_nil, corrected_written]

theorem Point.mapValues_toElement {p : Point Float}
    (plain : ∀ pair ∈ p.extra, ¬ "SW ".toList <+: pair.2.toList) :
    p.toElement.mapValues corrected = p.toElement := by
  have extra : p.extra.map (fun (key, value) => (key, corrected value)) = p.extra := by
    conv_rhs => rw [← List.map_id p.extra]
    exact List.map_congr_left fun pair mem =>
      congrArg (Prod.mk pair.1) (corrected_eq_self (plain pair mem))
  have nodes : Node.mapValuesList corrected [] = [] := rfl
  simp only [toElement, Element.mapValues, List.map_append, List.map_cons, List.map_nil,
    corrected_written, extra, nodes]
  cases p.writtenFlags with
  | none => rfl
  | some f => simp only [Option.map_some, Option.toList_some, List.map_cons, corrected_toString,
      List.map_nil]

theorem Metric.mapValues_toElement (m : Metric Float) :
    m.toElement.mapValues corrected = (m.rename (corrected m.name)).toElement := by
  have nodes : Node.mapValuesList corrected [] = [] := rfl
  simp only [toElement, Element.mapValues, List.map_cons, List.map_nil, corrected_written, nodes]
  rfl

theorem Contour.mapValues_toElement {c : Contour Float}
    (plain : ∀ p ∈ c, ∀ pair ∈ p.extra, ¬ "SW ".toList <+: pair.2.toList) :
    (toElement c).mapValues corrected = toElement c := by
  have points : c.map (fun p => p.toElement.toNode.mapValues corrected) =
      c.map fun p => p.toElement.toNode := by
    refine List.map_congr_left fun p mem => ?_
    rw [← Node.toNode_mapValues, Point.mapValues_toElement (plain p mem)]
  simp only [toElement, Element.mapValues, Node.mapValuesList_eq_map, List.map_map,
    Function.comp_def, points, List.map_nil]

theorem Glyph.mapValues_toElement {g : Glyph Float}
    (plain : ∀ p ∈ g.points, ∀ pair ∈ p.extra, ¬ "SW ".toList <+: pair.2.toList) :
    g.toElement.mapValues corrected = g.correctNames.toElement := by
  have contours : g.contours.map (fun c => (Contour.toElement c).toNode.mapValues corrected) =
      g.contours.map fun c => (Contour.toElement c).toNode := by
    refine List.map_congr_left fun c mem => ?_
    rw [← Node.toNode_mapValues,
      Contour.mapValues_toElement fun p p_mem => plain p (List.mem_flatten_of_mem mem p_mem)]
  have bounds : ((g.bounds.map BBox.toAttributes).getD []).map
      (fun (key, value) => (key, corrected value)) = (g.bounds.map BBox.toAttributes).getD [] := by
    cases g.bounds with
    | none => rfl
    | some b => exact b.map_toAttributes
  simp only [toElement, Element.mapValues, List.map_cons, bounds, Node.mapValuesList_eq_map,
    List.map_append, List.map_map, Function.comp_def, contours]
  rw [← Node.mapValuesList_eq_map]
  rfl

namespace Font

/-- Correcting names in records and in the rest of a document, each in its place, writes the
document that would have been written, with one space taken out of each value that begins
with the marker and a space.  So what refers to a glyph by its name still does. -/
theorem toDocument_correctNames {f : Font Float}
    (plain : ∀ g ∈ f.glyphs, ∀ p ∈ g.points, ∀ pair ∈ p.extra,
      ¬ "SW ".toList <+: pair.2.toList)
    {fix : String → String} (marked : ∀ rest, fix ("SW " ++ rest) = "SW" ++ rest)
    (unmarked : ∀ text : String, ¬ "SW ".toList <+: text.toList → fix text = text) :
    f.correctNames.toDocument = f.toDocument.mapValues fix ∧
      f.correctNames.toDocument.values = f.toDocument.values.map fix ∧
      f.correctNames.glyphs.map Glyph.name = f.glyphs.map fun g => fix g.name := by
  obtain rfl := eq_corrected marked unmarked
  have names : f.correctNames.names = f.names.map corrected := by
    rw [Font.names, Font.names, correctNames, List.map_map, List.map_map]
    rfl
  have glyphs : f.correctNames.glyphs.map Glyph.toElement =
      (f.glyphs.map Glyph.toElement).map (Element.mapValues corrected) := by
    rw [correctNames, List.map_map, List.map_map]
    exact List.map_congr_left fun g mem => (Glyph.mapValues_toElement (plain g mem)).symm
  have metrics : f.correctNames.metrics.map Metric.toElement =
      (f.metrics.map Metric.toElement).map (Element.mapValues corrected) := by
    rw [correctNames, List.map_map, List.map_map]
    exact List.map_congr_left fun m _ => m.mapValues_toElement.symm
  have whole : f.correctNames.toDocument = f.toDocument.mapValues corrected := by
    rw [toDocument_eq_splice, toDocument_eq_splice, mapValues_splice, names, glyphs, metrics]
    rfl
  refine ⟨whole, ?_, ?_⟩
  · rw [whole, Element.values_mapValues]
  · rw [correctNames, List.map_map]
    rfl

/-- The box of the sample is given a point with a note that is no name, and is renamed with all
that refers to it. -/
theorem toDocument_correctNames_of_sample :
    let point : Point Float := { x := 0, y := -4.5, onCurve := true, extra := [("note", "SW2")] }
    let f : Font Float :=
      { sampleFont with glyphs := [{ name := "SW M", contours := [[point]] }] }
    (∀ g ∈ f.glyphs, ∀ p ∈ g.points, ∀ pair ∈ p.extra, ¬ "SW ".toList <+: pair.2.toList) ∧
      (∀ rest, corrected ("SW " ++ rest) = "SW" ++ rest) ∧
      (∀ text : String, ¬ "SW ".toList <+: text.toList → corrected text = text) ∧
      f.correctNames.toDocument = f.toDocument.mapValues corrected ∧
      f.correctNames.toDocument.values = f.toDocument.values.map corrected ∧
      f.correctNames.glyphs.map Glyph.name = ["SWM"] := by
  intro point f
  have plain : ∀ g ∈ f.glyphs, ∀ p ∈ g.points, ∀ pair ∈ p.extra,
      ¬ "SW ".toList <+: pair.2.toList := by
    simp [f, point, Glyph.points]
  obtain ⟨document, values, names⟩ :=
    toDocument_correctNames plain corrected_append fun _ => corrected_eq_self
  exact ⟨plain, corrected_append, fun _ => corrected_eq_self, document, values,
    names.trans (by decide)⟩

end Font

end SymbolFont
