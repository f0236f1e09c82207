/-
# Reading back what a font writes

A font that holds what its document has places for is read back from the document that it
writes.  The records come back as documents hold them; the codes of the character map are the
one thing that is taken from the document alone, since only names are written there.
-/

import SymbolFont.Proofs.Font.Splice

namespace SymbolFont

open Markup

namespace Font

/-- Write a font and read it again. -/
def reload (f : Font Float) : Except ReadError (Font Float) := ofDocument f.toDocument

/-- Does the document have places for the records of the font, and the given codes for its
character map? -/
structure Stores (f : Font Float) (codes : List String) : Prop where
  charMap : ∃ tables subtable, f.document.child? charMapName = some tables ∧
    tables.child? subtableName = some subtable ∧
    (subtable.named entryName).map (·.attr? "code") = codes.map some
  size : codes.length = f.charMap.length
  outlines : ∃ outlines, f.document.child? outlinesName = some outlines
  metrics : ∃ table, f.document.child? metricsName = some table
  glyphs : ∀ g ∈ f.glyphs, g.Readable

/-- The entries that a document holds: names of the font with codes of the document. -/
def withCodes (f : Font Float) (codes : List String) : List CharMapEntry :=
  List.zipWith CharMapEntry.mk f.names codes

/-- The font that is read back. -/
def asWritten (f : Font Float) (codes : List String) : Font Float where
  charMap := f.withCodes codes
  glyphs := f.glyphs.map Glyph.asWritten
  metrics := f.metrics.map Metric.asWritten
  document := f.toDocument

/-! ## Reading ensures places -/

theorem CharMapEntry.attr?_of_ofElement {e : Element} {entry : CharMapEntry}
    (read : CharMapEntry.ofElement e = .ok entry) :
    e.attr? "name" = some entry.name ∧ e.attr? "code" = some entry.code := by
  obtain ⟨name, code⟩ := CharMapEntry.ofElement_eq_ok.mp read
  exact ⟨Element.attr?_of_required name, Element.attr?_of_required code⟩

/-- The elements of entries have names and codes. -/
theorem map_attr?_of_mapM {es : List Element} {entries : List CharMapEntry}
    (read : es.mapM CharMapEntry.ofElement = .ok entries) :
    es.map (·.attr? "name") = (entries.map CharMapEntry.name).map some ∧
      es.map (·.attr? "code") = (entries.map CharMapEntry.code).map some := by
  have each := forall₂_of_mapM_eq_ok read
  simp only [← List.forall₂_eq_eq_eq, List.forall₂_map_left_iff, List.forall₂_map_right_iff]
  exact ⟨each.imp fun _ _ read => (CharMapEntry.attr?_of_ofElement read).1,
    each.imp fun _ _ read => (CharMapEntry.attr?_of_ofElement read).2⟩

theorem requiredChild_eq_ok {e child : Element} {name : String} :
    e.requiredChild name = .ok child ↔ e.child? name = some child := by
  unfold Element.requiredChild
  cases e.child? name with
  | none => exact ⟨fun eq => (nomatch eq), fun eq => (nomatch eq)⟩
  | some found =>
      exact ⟨fun eq => congrArg some (Except.ok.inj eq),
        fun eq => congrArg Except.ok (Option.some.inj eq)⟩

theorem readCharMap_eq_ok {document : Element} {entries : List CharMapEntry} :
    readCharMap document = .ok entries ↔
      ∃ tables subtable, document.child? charMapName = some tables ∧
        tables.child? subtableName = some subtable ∧
        (subtable.named entryName).mapM CharMapEntry.ofElement = .ok entries := by
  simp only [readCharMap, bind_eq_ok, requiredChild_eq_ok, exists_and_left]

theorem readGlyphs_eq_ok {document : Element} {glyphs : List (Glyph Float)} :
    readGlyphs document = .ok glyphs ↔
      ∃ outlines, document.child? outlinesName = some outlines ∧
        (outlines.named Glyph.elementName).mapM Glyph.ofElement = .ok glyphs := by
  simp only [readGlyphs, bind_eq_ok, requiredChild_eq_ok]

theorem readMetrics_eq_ok {document : Element} {metrics : List (Metric Float)} :
    readMetrics document = .ok metrics ↔
      ∃ table, document.child? metricsName = some table ∧
        (table.named Metric.elementName).mapM Metric.ofElement = .ok metrics := by
  simp only [readMetrics, bind_eq_ok, requiredChild_eq_ok]

/-- A font is read exactly if its records are. -/
theorem ofDocument_eq_ok {document : Element} {f : Font Float} :
    ofDocument document = .ok f ↔ f.document = document ∧ readCharMap document = .ok f.charMap ∧
      readGlyphs document = .ok f.glyphs ∧ readMetrics document = .ok f.metrics := by
  constructor
  · intro read
    obtain ⟨charMap, charMap_read, rest⟩ := bind_eq_ok.mp read
    obtain ⟨glyphs, glyphs_read, rest⟩ := bind_eq_ok.mp rest
    obtain ⟨metrics, metrics_read, rest⟩ := bind_eq_ok.mp rest
    cases rest
    exact ⟨rfl, charMap_read, glyphs_read, metrics_read⟩
  · rintro ⟨rfl, charMap, glyphs, metrics⟩
    rw [ofDocument, charMap, glyphs, metrics]
    rfl

/-- Every glyph of a font that was read comes from the element in its place. -/
theorem ofElement_of_ofDocument {document outlines e : Element} {f : Font Float}
    {g : Glyph Float} {i : Nat} (read : ofDocument document = .ok f)
    (found : document.child? outlinesName = some outlines)
    (at_e : (outlines.named Glyph.elementName)[i]? = some e) (at_g : f.glyphs[i]? = some g) :
    Glyph.ofElement e = .ok g := by
  obtain ⟨-, -, glyphs_read, -⟩ := ofDocument_eq_ok.mp read
  obtain ⟨outlines', found', all⟩ := readGlyphs_eq_ok.mp glyphs_read
  obtain rfl : outlines = outlines' := Option.some.inj (found.symm.trans found')
  obtain ⟨e_bound, rfl⟩ := List.getElem?_eq_some_iff.mp at_e
  obtain ⟨g_bound, rfl⟩ := List.getElem?_eq_some_iff.mp at_g
  exact (forall₂_of_mapM_eq_ok all).get e_bound g_bound

/-- Does a document have as many elements for records as the font has records, with the codes
of its character map? -/
structure Fits (f : Font Float) (document : Element) : Prop where
  charMap : ∃ tables subtable, document.child? charMapName = some tables ∧
    tables.child? subtableName = some subtable ∧
    (subtable.named entryName).map (·.attr? "code") = (f.charMap.map CharMapEntry.code).map some
  outlines : ∃ outlines, document.child? outlinesName = some outlines ∧
    (outlines.named Glyph.elementName).length = f.glyphs.length
  metrics : ∃ table, document.child? metricsName = some table ∧
    (table.named Metric.elementName).length = f.metrics.length

theorem fits_of_ofDocument {document : Element} {f : Font Float}
    (read : ofDocument document = .ok f) : f.Fits document := by
  obtain ⟨-, charMap_read, glyphs_read, metrics_read⟩ := ofDocument_eq_ok.mp read
  obtain ⟨tables, subtable, tables_found, subtable_found, entries_read⟩ :=
    readCharMap_eq_ok.mp charMap_read
  obtain ⟨outlines, outlines_found, glyphs_read⟩ := readGlyphs_eq_ok.mp glyphs_read
  obtain ⟨table, table_found, metrics_read⟩ := readMetrics_eq_ok.mp metrics_read
  exact ⟨⟨tables, subtable, tables_found, subtable_found, (map_attr?_of_mapM entries_read).2⟩,
    ⟨outlines, outlines_found, (forall₂_of_mapM_eq_ok glyphs_read).length_eq⟩,
    ⟨table, table_found, (forall₂_of_mapM_eq_ok metrics_read).length_eq⟩⟩

/-- A font that has been read stores the codes that it was read with. -/
theorem stores_of_ofDocument {document : Element} {f : Font Float}
    (read : ofDocument document = .ok f) :
    f.Stores (f.charMap.map CharMapEntry.code) := by
  have fits := fits_of_ofDocument read
  obtain ⟨rfl, -, glyphs_read, -⟩ := ofDocument_eq_ok.mp read
  obtain ⟨outlines, outlines_found, glyphs_read⟩ := readGlyphs_eq_ok.mp glyphs_read
  obtain ⟨table, table_found, -⟩ := fits.metrics
  refine ⟨fits.charMap, List.length_map _, ⟨outlines, outlines_found⟩, ⟨table, table_found⟩, ?_⟩
  intro g mem
  obtain ⟨e, -, glyph_read⟩ := exists_of_mem_of_mapM_eq_ok glyphs_read mem
  exact Glyph.readable_of_ofElement glyph_read

/-! ## Places are read -/

/-- Reading the same attribute of all elements succeeds with their values. -/
theorem mapM_required_eq_ok {es : List Element} {key : String} {values : List String} :
    es.mapM (Element.required · key) = .ok values ↔ es.map (·.attr? key) = values.map some := by
  constructor
  · intro read
    rw [← List.forall₂_eq_eq_eq, List.forall₂_map_left_iff, List.forall₂_map_right_iff]
    exact (forall₂_of_mapM_eq_ok read).imp fun _ _ read => Element.attr?_of_required read
  · intro found
    induction es generalizing values with
    | nil =>
        rw [List.map_nil, eq_comm, List.map_eq_nil_iff] at found
        rw [found]
        rfl
    | cons e es ih =>
        cases values with
        | nil => cases found
        | cons value values =>
            obtain ⟨first, rest⟩ := List.cons.inj found
            rw [List.mapM_cons, Element.required_eq_ok first, ih rest]
            rfl

/-- An element that is given a name is read as an entry if it has a code. -/
theorem ofElement_setAttr (e : Element) (name : String) :
    CharMapEntry.ofElement (e.setAttr "name" name) =
      (e.required "code").map (CharMapEntry.mk name) := by
  have name_read : (e.setAttr "name" name).required "name" = .ok name :=
    Element.required_eq_ok (Element.attr?_setAttr e "name" name)
  have code_read : (e.setAttr "name" name).required "code" = e.required "code" := by
    unfold Element.required
    rw [Element.attr?_setAttr_of_ne e name (by decide : "code" ≠ "name")]
    rfl
  rw [CharMapEntry.ofElement, name_read, code_read]
  cases e.required "code" <;> rfl

/-- Elements that are given names are read as entries with these and with their own codes. -/
theorem mapM_ofElement_renamed (es : List Element) (names : List String) :
    ((es.zip names).map fun (e, name) => e.setAttr "name" name).mapM CharMapEntry.ofElement =
      ((es.take names.length).mapM (Element.required · "code")).map
        (List.zipWith CharMapEntry.mk names) := by
  induction es generalizing names with
  | nil =>
      rw [List.take_nil]
      show Except.ok [] = Except.ok (List.zipWith _ names [])
      rw [List.zipWith_nil_right]
  | cons e es ih =>
      cases names with
      | nil => rfl
      | cons name names =>
          simp only [List.zip_cons_cons, List.map_cons, List.mapM_cons, ofElement_setAttr, ih,
            List.length_cons, List.take_succ_cons]
          cases e.required "code" with
          | error fault => rfl
          | ok code => cases (es.take names.length).mapM (Element.required · "code") <;> rfl

section Places

variable {f : Font Float} {outlines table tables : Element}

/-- The three parts of a document that records are written to are changed one by one. -/
theorem child?_toDocument :
    f.toDocument.child? outlinesName = (f.document.child? outlinesName).map
        (·.replaceNamed Glyph.elementName (f.glyphs.map Glyph.toElement)) ∧
      f.toDocument.child? metricsName = (f.document.child? metricsName).map
        (·.replaceNamed Metric.elementName (f.metrics.map Metric.toElement)) ∧
      f.toDocument.child? charMapName = (f.document.child? charMapName).map
        (·.modifyChild subtableName (renameEntries f.names)) := by
  have glyphs_keeps := Element.keepsName_replaceNamed Glyph.elementName
    (f.glyphs.map Glyph.toElement)
  have metrics_keeps := Element.keepsName_replaceNamed Metric.elementName
    (f.metrics.map Metric.toElement)
  have tables_keeps := Element.keepsName_modifyChild subtableName (renameEntries f.names)
  rw [toDocument_eq_splice, splice]
  refine ⟨?_, ?_, ?_⟩
  · rw [Element.child?_modifyChild_of_ne _ tables_keeps (by decide),
      Element.child?_modifyChild_of_ne _ metrics_keeps (by decide),
      Element.child?_modifyChild _ glyphs_keeps]
  · rw [Element.child?_modifyChild_of_ne _ tables_keeps (by decide),
      Element.child?_modifyChild _ metrics_keeps,
      Element.child?_modifyChild_of_ne _ glyphs_keeps (by decide)]
  · rw [Element.child?_modifyChild _ tables_keeps,
      Element.child?_modifyChild_of_ne _ metrics_keeps (by decide),
      Element.child?_modifyChild_of_ne _ glyphs_keeps (by decide)]

/-- The glyphs are written in the places of those that the document has. -/
theorem child?_outlinesName_toDocument (found : f.document.child? outlinesName = some outlines) :
    f.toDocument.child? outlinesName =
      some (outlines.replaceNamed Glyph.elementName (f.glyphs.map Glyph.toElement)) := by
  rw [child?_toDocument.1, found, Option.map_some]

/-- The metrics are written in the places of those that the document has. -/
theorem child?_metricsName_toDocument (found : f.document.child? metricsName = some table) :
    f.toDocument.child? metricsName =
      some (table.replaceNamed Metric.elementName (f.metrics.map Metric.toElement)) := by
  rw [child?_toDocument.2.1, found, Option.map_some]

/-- Names are written in the places of those that the character map has. -/
theorem child?_charMapName_toDocument (found : f.document.child? charMapName = some tables) :
    f.toDocument.child? charMapName =
      some (tables.modifyChild subtableName (renameEntries f.names)) := by
  rw [child?_toDocument.2.2, found, Option.map_some]

end Places

/-- The character map that a font writes is made up of elements of the document with the names
of the font. -/
theorem readCharMap_toDocument {f : Font Float} {tables subtable : Element}
    (tables_found : f.document.child? charMapName = some tables)
    (subtable_found : tables.child? subtableName = some subtable) :
    readCharMap f.toDocument =
      (((subtable.named entryName).zip f.names).map fun (e, name) =>
        e.setAttr "name" name).mapM CharMapEntry.ofElement := by
  have below : (tables.modifyChild subtableName (renameEntries f.names)).child? subtableName =
      some (renameEntries f.names subtable) := by
    rw [Element.child?_modifyChild _ (keepsName_renameEntries _), subtable_found]
    rfl
  rw [readCharMap, requiredChild_eq_ok.mpr (child?_charMapName_toDocument tables_found)]
  show (Element.requiredChild _ _ >>= _) = _
  rw [requiredChild_eq_ok.mpr below, ← named_renameEntries]
  rfl

/-- The glyphs that a font writes can be read back if their elements can. -/
theorem readGlyphs_toDocument {f : Font Float} {outlines : Element}
    {kept : Glyph Float → Glyph Float} (found : f.document.child? outlinesName = some outlines)
    (each : ∀ g ∈ f.glyphs, Glyph.ofElement g.toElement = .ok (kept g)) :
    readGlyphs f.toDocument = .ok (f.glyphs.map kept) := by
  refine readGlyphs_eq_ok.mpr ⟨_, child?_outlinesName_toDocument found, ?_⟩
  rw [Element.named_replaceNamed _ fun _ mem => name_of_mem_glyphElements mem]
  exact mapM_map_eq_ok each

/-- The metrics that a font writes are read back. -/
theorem readMetrics_toDocument {f : Font Float} {table : Element}
    (found : f.document.child? metricsName = some table) :
    readMetrics f.toDocument = .ok (f.metrics.map Metric.asWritten) := by
  refine readMetrics_eq_ok.mpr ⟨_, child?_metricsName_toDocument found, ?_⟩
  rw [Element.named_replaceNamed _ fun _ mem => name_of_mem_metricElements mem]
  exact mapM_map_eq_ok fun m _ => Metric.ofElement_toElement m

/-- The font that is read back from a document that gives the character map. -/
def storedWith (f : Font Float) (charMap : List CharMapEntry) : Font Float where
  charMap
  glyphs := f.glyphs.map Glyph.asStored
  metrics := f.metrics.map Metric.asWritten
  document := f.toDocument

/-- Whatever the tables of the document hold, reading gives the records that were written but
for the codes, which are those of the elements that names are written to. -/
theorem reload_eq {f : Font Float} {outlines table tables subtable : Element}
    (outlines_found : f.document.child? outlinesName = some outlines)
    (table_found : f.document.child? metricsName = some table)
    (tables_found : f.document.child? charMapName = some tables)
    (subtable_found : tables.child? subtableName = some subtable)
    (storable : ∀ g ∈ f.glyphs, g.Storable) :
    f.reload = (((subtable.named entryName).take f.charMap.length).mapM
      (Element.required · "code")).map fun codes => f.storedWith (f.withCodes codes) := by
  have glyphs := readGlyphs_toDocument outlines_found fun g mem =>
    Glyph.ofElement_toElement_of_storable (storable g mem)
  have entries := readCharMap_toDocument tables_found subtable_found
  rw [mapM_ofElement_renamed, length_names] at entries
  rw [reload, ofDocument, glyphs, readMetrics_toDocument table_found, entries]
  cases ((subtable.named entryName).take f.charMap.length).mapM (Element.required · "code") <;> rfl

/-- What a font stores is read back. -/
theorem Stores.reload {f : Font Float} {codes : List String} (stores : f.Stores codes) :
    f.reload = .ok (f.asWritten codes) := by
  obtain ⟨tables, subtable, tables_found, subtable_found, codes_found⟩ := stores.charMap
  obtain ⟨outlines, outlines_found⟩ := stores.outlines
  obtain ⟨table, table_found⟩ := stores.metrics
  have count : (subtable.named entryName).length = f.charMap.length := by
    have lengths := congrArg List.length codes_found
    rwa [List.length_map, List.length_map, stores.size] at lengths
  have glyphs : f.glyphs.map Glyph.asStored = f.glyphs.map Glyph.asWritten :=
    List.map_congr_left fun g mem => (stores.glyphs g mem).asStored
  rw [reload_eq outlines_found table_found tables_found subtable_found
      fun g mem => (stores.glyphs g mem).storable,
    List.take_of_length_le count.le, mapM_required_eq_ok.mpr codes_found, asWritten, ← glyphs]
  rfl

/-! ## Fonts that write the same -/

/-- Do two fonts agree in all that is written, and in the records as documents hold them? -/
structure Alike (f g : Font Float) : Prop where
  names : f.names = g.names
  glyphs : f.glyphs.map Glyph.asWritten = g.glyphs.map Glyph.asWritten
  metrics : f.metrics.map Metric.asWritten = g.metrics.map Metric.asWritten
  document : f.toDocument = g.toDocument

theorem map_toElement_eq_of_glyphs {gs hs : List (Glyph Float)}
    (same : gs.map Glyph.asWritten = hs.map Glyph.asWritten) :
    gs.map Glyph.toElement = hs.map Glyph.toElement := by
  have elements := congrArg (List.map Glyph.toElement) same
  simpa only [List.map_map, Function.comp_def, Glyph.toElement_asWritten] using elements

theorem map_toElement_eq_of_metrics {ms ns : List (Metric Float)}
    (same : ms.map Metric.asWritten = ns.map Metric.asWritten) :
    ms.map Metric.toElement = ns.map Metric.toElement := by
  have elements := congrArg (List.map Metric.toElement) same
  simpa only [List.map_map, Function.comp_def, Metric.toElement_asWritten] using elements

theorem map_name_zipWith_mk {names codes : List String} (length : codes.length = names.length) :
    (List.zipWith CharMapEntry.mk names codes).map CharMapEntry.name = names := by
  induction names generalizing codes with
  | nil => rfl
  | cons name names ih =>
      obtain ⟨code, codes, rfl⟩ :=
        List.exists_cons_of_length_eq_add_one (length.trans List.length_cons)
      have rest : codes.length = names.length := by simpa using length
      rw [List.zipWith_cons_cons, List.map_cons, ih rest]

/-- With the codes that it has itself, the character map is read back whole. -/
theorem withCodes_map_code (f : Font Float) :
    f.withCodes (f.charMap.map CharMapEntry.code) = f.charMap := by
  rw [withCodes, names, List.zipWith_map]
  induction f.charMap with
  | nil => rfl
  | cons entry entries ih => rw [List.zipWith_cons_cons, ih]

/-- A font is like the one that is read back. -/
theorem Stores.alike_asWritten {f : Font Float} {codes : List String} (stores : f.Stores codes) :
    Alike (f.asWritten codes) f := by
  have names : (f.asWritten codes).names = f.names := by
    apply map_name_zipWith_mk
    rw [stores.size, Font.names, List.length_map]
  have glyphs : (f.asWritten codes).glyphs.map Glyph.asWritten = f.glyphs.map Glyph.asWritten := by
    show (f.glyphs.map Glyph.asWritten).map Glyph.asWritten = _
    simp
  have metrics : (f.asWritten codes).metrics.map Metric.asWritten =
      f.metrics.map Metric.asWritten := by
    show (f.metrics.map Metric.asWritten).map Metric.asWritten = _
    simp
  refine ⟨names, glyphs, metrics, ?_⟩
  rw [toDocument_eq_splice, names, map_toElement_eq_of_glyphs glyphs,
    map_toElement_eq_of_metrics metrics]
  show splice _ _ _ f.toDocument = _
  rw [splice_toDocument (by rw [Font.names, List.length_map]) (by rw [List.length_map])
    (by rw [List.length_map]), toDocument_eq_splice]

end Font

end SymbolFont
