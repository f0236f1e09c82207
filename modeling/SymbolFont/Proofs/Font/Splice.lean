/-
# Writing records into documents

The document of a font is spliced from the elements of its records and all the rest of the
document that it was read from.  Splicing is a family of updates in three different places:
the later of two of the same size wins, and changing all values of a document goes through
them.  So the rest of a document is all that matters of it, and it may be replaced at any time
by the document that the font would write.
-/

import SymbolFont.Font.Basic
import SymbolFont.Proofs.Glyph.Record

namespace SymbolFont

open Markup

namespace Font

/-- Give the entries of a character map new names. -/
def renameEntries (names : List String) (subtable : Element) : Element :=
  subtable.replaceNamed entryName
    (((subtable.named entryName).zip names).map fun (e, name) => e.setAttr "name" name)

/-- Put names of the character map, elements of glyphs and elements of metrics into a
document. -/
def splice (names : List String) (glyphs metrics : List Element) (document : Element) : Element :=
  ((document.modifyChild outlinesName fun outlines =>
      outlines.replaceNamed Glyph.elementName glyphs).modifyChild metricsName fun table =>
        table.replaceNamed Metric.elementName metrics).modifyChild charMapName fun tables =>
          tables.modifyChild subtableName (renameEntries names)

/-- The names that the character map gives. -/
def names {α : Type} (f : Font α) : List String := f.charMap.map CharMapEntry.name

theorem length_names {α : Type} (f : Font α) : f.names.length = f.charMap.length :=
  List.length_map _

/-- Entries are named after those of the character map by its names alone. -/
theorem map_setAttr_zip_charMap (es : List Element) (f : Font Float) :
    ((es.zip f.charMap).map fun (e, entry) => e.setAttr "name" entry.name) =
      (es.zip f.names).map fun (e, name) => e.setAttr "name" name := by
  rw [names, List.zip_map_right, List.map_map]
  rfl

theorem toDocument_eq_splice (f : Font Float) :
    f.toDocument =
      splice f.names (f.glyphs.map Glyph.toElement) (f.metrics.map Metric.toElement)
        f.document := by
  simp only [toDocument, overlayCharMap, overlayMetrics, overlayGlyphs, splice,
    map_setAttr_zip_charMap]
  rfl

/-! ## The tables with records -/

section Tables

variable {outlines outlines' metrics metrics' charMaps charMaps' : Element → Element}

/-- Change the three tables that hold records. -/
def mapTables (outlines metrics charMaps : Element → Element) (document : Element) : Element :=
  ((document.modifyChild outlinesName outlines).modifyChild metricsName metrics).modifyChild
    charMapName charMaps

theorem splice_eq_mapTables (names : List String) (glyphs metrics : List Element) :
    splice names glyphs metrics =
      mapTables (·.replaceNamed Glyph.elementName glyphs)
        (·.replaceNamed Metric.elementName metrics)
        (·.modifyChild subtableName (renameEntries names)) := rfl

/-- Two changes of the tables are one. -/
theorem mapTables_mapTables (document : Element) (outlines_keeps : Element.KeepsName outlines)
    (metrics_keeps : Element.KeepsName metrics) (charMaps_keeps : Element.KeepsName charMaps)
    (outlines_keeps' : Element.KeepsName outlines') (metrics_keeps' : Element.KeepsName metrics') :
    mapTables outlines' metrics' charMaps' (mapTables outlines metrics charMaps document) =
      mapTables (fun e => outlines' (outlines e)) (fun e => metrics' (metrics e))
        (fun e => charMaps' (charMaps e)) document := by
  have outlines_metrics : outlinesName ≠ metricsName := by decide
  have outlines_tables : outlinesName ≠ charMapName := by decide
  have metrics_tables : metricsName ≠ charMapName := by decide
  -- Each of the later changes is moved next to the earlier one of the same table.
  unfold mapTables
  rw [Element.modifyChild_comm _ charMaps_keeps outlines_keeps' outlines_tables,
    Element.modifyChild_comm _ metrics_keeps outlines_keeps' outlines_metrics,
    Element.modifyChild_modifyChild _ outlines_keeps,
    Element.modifyChild_comm _ charMaps_keeps metrics_keeps' metrics_tables,
    Element.modifyChild_modifyChild _ metrics_keeps,
    Element.modifyChild_modifyChild _ charMaps_keeps]

/-- Only what becomes of the tables that are there matters. -/
theorem mapTables_congr {document : Element} (outlines_keeps : Element.KeepsName outlines')
    (metrics_keeps : Element.KeepsName metrics')
    (outlines_same : ∀ e, document.child? outlinesName = some e → outlines e = outlines' e)
    (metrics_same : ∀ e, document.child? metricsName = some e → metrics e = metrics' e)
    (charMaps_same : ∀ e, document.child? charMapName = some e → charMaps e = charMaps' e) :
    mapTables outlines metrics charMaps document =
      mapTables outlines' metrics' charMaps' document := by
  have metrics_outlines : metricsName ≠ outlinesName := by decide
  have tables_outlines : charMapName ≠ outlinesName := by decide
  have tables_metrics : charMapName ≠ metricsName := by decide
  unfold mapTables
  rw [Element.modifyChild_congr outlines_same]
  rw [← Element.child?_modifyChild_of_ne document outlines_keeps metrics_outlines] at metrics_same
  rw [Element.modifyChild_congr metrics_same]
  rw [← Element.child?_modifyChild_of_ne document outlines_keeps tables_outlines,
    ← Element.child?_modifyChild_of_ne _ metrics_keeps tables_metrics] at charMaps_same
  exact Element.modifyChild_congr charMaps_same

end Tables

/-! ## Laws -/

theorem keepsName_renameEntries (names : List String) : Element.KeepsName (renameEntries names) :=
  fun _ => rfl

/-- Entries that are named twice bear the later names. -/
theorem map_setAttr_zip_map_setAttr (es : List Element) {earlier later : List String}
    (length : later.length = earlier.length) :
    ((((es.zip earlier).map fun (e, name) => e.setAttr "name" name).zip later).map
      fun (e, name) => e.setAttr "name" name) =
        (es.zip later).map fun (e, name) => e.setAttr "name" name := by
  induction es generalizing earlier later with
  | nil => rfl
  | cons e es ih =>
      cases earlier with
      | nil => rw [List.eq_nil_of_length_eq_zero length]; rfl
      | cons old earlier =>
          obtain ⟨new, later, rfl⟩ :=
            List.exists_cons_of_length_eq_add_one (length.trans List.length_cons)
          have rest : later.length = earlier.length := by simpa using length
          simp only [List.zip_cons_cons, List.map_cons, Element.setAttr_setAttr, ih rest]

theorem name_of_mem_renamed {subtable : Element} {names : List String} {e : Element}
    (mem : e ∈ ((subtable.named entryName).zip names).map fun (e, name) => e.setAttr "name" name) :
    e.name = entryName := by
  obtain ⟨⟨source, name⟩, pair_mem, rfl⟩ := List.mem_map.mp mem
  have source_mem := List.of_mem_zip pair_mem
  simpa using (List.mem_filter.mp source_mem.1).2

theorem named_renameEntries (names : List String) (subtable : Element) :
    (renameEntries names subtable).named entryName =
      ((subtable.named entryName).zip names).map fun (e, name) => e.setAttr "name" name :=
  Element.named_replaceNamed subtable fun _ mem => name_of_mem_renamed mem

theorem renameEntries_renameEntries {earlier later : List String} (subtable : Element)
    (length : later.length = earlier.length) :
    renameEntries later (renameEntries earlier subtable) = renameEntries later subtable := by
  have named := named_renameEntries earlier subtable
  rw [renameEntries, named, map_setAttr_zip_map_setAttr _ length, renameEntries,
    Element.replaceNamed_replaceNamed subtable (fun _ mem => name_of_mem_renamed mem)]
  · rfl
  · simp [length]

/-- The later of two splices of the same size wins. -/
theorem splice_splice {names names' : List String} {glyphs glyphs' metrics metrics' : List Element}
    (document : Element) (glyphs_named : ∀ e ∈ glyphs, e.name = Glyph.elementName)
    (metrics_named : ∀ e ∈ metrics, e.name = Metric.elementName)
    (names_length : names'.length = names.length) (glyphs_length : glyphs'.length = glyphs.length)
    (metrics_length : metrics'.length = metrics.length) :
    splice names' glyphs' metrics' (splice names glyphs metrics document) =
      splice names' glyphs' metrics' document := by
  have inner : ∀ tables : Element,
      (tables.modifyChild subtableName (renameEntries names)).modifyChild subtableName
        (renameEntries names') = tables.modifyChild subtableName (renameEntries names') := by
    intro tables
    rw [Element.modifyChild_modifyChild _ (keepsName_renameEntries names)]
    simp only [renameEntries_renameEntries _ names_length]
  rw [splice_eq_mapTables, splice_eq_mapTables,
    mapTables_mapTables document (Element.keepsName_replaceNamed _ glyphs)
      (Element.keepsName_replaceNamed _ metrics) (Element.keepsName_modifyChild _ _)
      (Element.keepsName_replaceNamed _ glyphs') (Element.keepsName_replaceNamed _ metrics')]
  simp only [inner, Element.replaceNamed_replaceNamed _ glyphs_named glyphs_length,
    Element.replaceNamed_replaceNamed _ metrics_named metrics_length]

/-- Changing all values goes through a splice. -/
theorem mapValues_splice (h : String → String) (names : List String) (glyphs metrics : List Element)
    (document : Element) :
    (splice names glyphs metrics document).mapValues h =
      splice (names.map h) (glyphs.map (Element.mapValues h)) (metrics.map (Element.mapValues h))
        (document.mapValues h) := by
  have entries : ∀ subtable : Element, (renameEntries names subtable).mapValues h =
      renameEntries (names.map h) (subtable.mapValues h) := by
    intro subtable
    rw [renameEntries, renameEntries, Element.mapValues_replaceNamed, Element.named_mapValues,
      List.map_map, List.zip_map, List.map_map]
    congr 1
    apply List.map_congr_left
    rintro ⟨e, name⟩ -
    exact Element.mapValues_setAttr h e "name" name
  have tables : ∀ e : Element, (e.modifyChild subtableName (renameEntries names)).mapValues h =
      (e.mapValues h).modifyChild subtableName (renameEntries (names.map h)) :=
    fun e => Element.mapValues_modifyChild h e entries
  have replaced : ∀ (name : String) (es : List Element) (e : Element),
      (e.replaceNamed name es).mapValues h =
        (e.mapValues h).replaceNamed name (es.map (Element.mapValues h)) :=
    fun _ es e => Element.mapValues_replaceNamed h e es
  unfold splice
  rw [Element.mapValues_modifyChild h _ (g := fun e =>
      e.modifyChild subtableName (renameEntries (names.map h))) tables,
    Element.mapValues_modifyChild h _ (g := fun e =>
      e.replaceNamed Metric.elementName (metrics.map (Element.mapValues h))) (replaced _ metrics),
    Element.mapValues_modifyChild h _ (g := fun e =>
      e.replaceNamed Glyph.elementName (glyphs.map (Element.mapValues h))) (replaced _ glyphs)]

theorem name_of_mem_glyphElements {glyphs : List (Glyph Float)} {e : Element}
    (mem : e ∈ glyphs.map Glyph.toElement) : e.name = Glyph.elementName := by
  obtain ⟨g, -, rfl⟩ := List.mem_map.mp mem
  rfl

theorem name_of_mem_metricElements {metrics : List (Metric Float)} {e : Element}
    (mem : e ∈ metrics.map Metric.toElement) : e.name = Metric.elementName := by
  obtain ⟨m, -, rfl⟩ := List.mem_map.mp mem
  rfl

/-- The document that a font would write may take the place of the one that it holds. -/
theorem splice_toDocument {f : Font Float} {names : List String} {glyphs metrics : List Element}
    (names_length : names.length = f.charMap.length)
    (glyphs_length : glyphs.length = f.glyphs.length)
    (metrics_length : metrics.length = f.metrics.length) :
    splice names glyphs metrics f.toDocument = splice names glyphs metrics f.document := by
  rw [toDocument_eq_splice]
  apply splice_splice
  · exact fun _ mem => name_of_mem_glyphElements mem
  · exact fun _ mem => name_of_mem_metricElements mem
  · rw [names_length, Font.names, List.length_map]
  · rw [glyphs_length, List.length_map]
  · rw [metrics_length, List.length_map]

/-- The same behind a change of all values. -/
theorem splice_mapValues_toDocument {f : Font Float} {names : List String}
    {glyphs metrics : List Element} (h : String → String)
    (names_length : names.length = f.charMap.length)
    (glyphs_length : glyphs.length = f.glyphs.length)
    (metrics_length : metrics.length = f.metrics.length) :
    splice names glyphs metrics (f.toDocument.mapValues h) =
      splice names glyphs metrics (f.document.mapValues h) := by
  rw [toDocument_eq_splice, mapValues_splice]
  apply splice_splice
  · intro e mem
    obtain ⟨source, source_mem, rfl⟩ := List.mem_map.mp mem
    show source.name = _
    exact name_of_mem_glyphElements source_mem
  · intro e mem
    obtain ⟨source, source_mem, rfl⟩ := List.mem_map.mp mem
    show source.name = _
    exact name_of_mem_metricElements source_mem
  · rw [names_length, List.length_map, Font.names, List.length_map]
  · rw [glyphs_length, List.length_map, List.length_map]
  · rw [metrics_length, List.length_map, List.length_map]

end Font

end SymbolFont
