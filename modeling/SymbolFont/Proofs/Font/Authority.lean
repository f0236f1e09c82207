/-
# Records overrule the document

Between reading a font and writing it, its document may be changed beside its records.  The
glyphs and the metrics that are written are the records, whatever their tables have come to
hold, and so are the names of the character map.  But these are given to the elements that the
character map has by then, with the codes of these elements: an entry without an element is not
written, an element without an entry is dropped, and a code that was changed stays changed.
-/

import SymbolFont.Proofs.Edit.Reload

namespace SymbolFont

open Markup

/-- What a glyph needs to be told from its element is not changed by storing it. -/
theorem Glyph.storable_of_asStored {g : Glyph Float} (storable : g.asStored.Storable) :
    g.Storable := by
  refine ⟨fun c mem p p_mem => ?_, storable.other⟩
  exact storable.points _ (List.mem_map_of_mem mem) p.asStored (List.mem_map_of_mem p_mem)

/-- As many codes as there are names, or less, are the codes of the entries made with them. -/
theorem map_code_zipWith_mk {names codes : List String} (length : codes.length ≤ names.length) :
    (List.zipWith CharMapEntry.mk names codes).map CharMapEntry.code = codes := by
  rw [List.map_zipWith, ← List.map_uncurry_zip_eq_zipWith]
  exact List.map_snd_zip length

namespace Font

section Changed

variable {f : Font Float} {outlines table tables subtable : Element}

/-- Glyphs that are read back as they are stored can be told from their elements. -/
theorem storable_of_reload (read : f.reload = .ok (f.storedWith f.charMap)) :
    ∀ g ∈ f.glyphs, g.Storable := by
  obtain ⟨-, -, glyphs_read, -⟩ := ofDocument_eq_ok.mp read
  obtain ⟨_, -, each⟩ := readGlyphs_eq_ok.mp glyphs_read
  intro g mem
  obtain ⟨e, -, glyph_read⟩ := exists_of_mem_of_mapM_eq_ok each (List.mem_map_of_mem mem)
  exact Glyph.storable_of_asStored (Glyph.readable_of_ofElement glyph_read).storable

/-- The entries with the codes of a document are those of the font exactly if the codes are. -/
theorem withCodes_eq_charMap_iff {codes : List String} (length : codes.length ≤ f.charMap.length) :
    f.withCodes codes = f.charMap ↔ codes = f.charMap.map CharMapEntry.code := by
  constructor
  · intro same
    rw [← same, withCodes, map_code_zipWith_mk (by rwa [length_names])]
  · rintro rfl
    exact f.withCodes_map_code

/-- Records overrule the document.  Of a font whose document has been changed, but still has the
tables that records are written to, names, glyphs and metrics are read back as the records have
them, and codes as the elements of the character map do.  So the records are read back exactly
if these elements, as many as there are entries, have the codes of the entries, and the glyphs
can be told from their elements. -/
theorem reload_eq_records_iff (outlines_found : f.document.child? outlinesName = some outlines)
    (table_found : f.document.child? metricsName = some table)
    (tables_found : f.document.child? charMapName = some tables)
    (subtable_found : tables.child? subtableName = some subtable) :
    let elements := (subtable.named entryName).take f.charMap.length
    ((∀ g ∈ f.glyphs, g.Storable) → f.reload = (elements.mapM (Element.required · "code")).map
      fun codes => f.storedWith (f.withCodes codes)) ∧
    (f.reload = .ok (f.storedWith f.charMap) ↔ (∀ g ∈ f.glyphs, g.Storable) ∧
      elements.map (·.attr? "code") = (f.charMap.map CharMapEntry.code).map some) := by
  intro elements
  have closed : (∀ g ∈ f.glyphs, g.Storable) → f.reload =
      (elements.mapM (Element.required · "code")).map
        fun codes => f.storedWith (f.withCodes codes) :=
    reload_eq outlines_found table_found tables_found subtable_found
  refine ⟨closed, fun read => ?_, fun ⟨storable, codes_found⟩ => ?_⟩
  · -- What has been read can be stored, so the equation tells what has been read.
    have storable := storable_of_reload read
    rw [closed storable] at read
    cases codes_read : elements.mapM (Element.required · "code") with
    | error fault => rw [codes_read] at read; cases read
    | ok codes =>
        rw [codes_read] at read
        have found := mapM_required_eq_ok.mp codes_read
        have length : codes.length ≤ f.charMap.length := by
          have lengths := congrArg List.length found
          rw [List.length_map, List.length_map] at lengths
          rw [← lengths]
          exact List.length_take_le _ _
        have entries : f.withCodes codes = f.charMap :=
          congrArg Font.charMap (Except.ok.inj read)
        rw [withCodes_eq_charMap_iff length] at entries
        rw [← entries]
        exact ⟨storable, found⟩
  · rw [closed storable, mapM_required_eq_ok.mpr codes_found]
    exact congrArg (Except.ok ∘ f.storedWith) f.withCodes_map_code

end Changed

/-- The sample after a change to its document: the character map has been given the nodes, the
glyphs have become two without names, and the metrics have been removed. -/
def changedSample (entries : List Node) : Font Float :=
  { sampleFont with
    document :=
      { name := "ttFont"
        children :=
          [.element "cmap" [] [.element "cmap_format_12" [] entries],
          .element "glyf" [] [.element "TTGlyph" [] [], .element "TTGlyph" [] []],
          .element "hmtx" [] []] } }

theorem storable_changedSample (entries : List Node) :
    ∀ g ∈ (changedSample entries).glyphs, g.Storable := fun g mem =>
  ((stores_of_ofDocument ofDocument_sampleDocument).glyphs g mem).storable

/-- With its codes in the first of the elements, the changed sample is read back, whatever names
the elements have and however many there are. -/
theorem reload_changedSample_eq_records :
    let f := changedSample [.comment " moved ", .element "map" [("code", "0x40")] [],
      .element "map" [("code", "0x41"), ("name", "M")] [], .element "map" [("code", "0x42")] [],
      .element "map" [("code", "0x50"), ("name", "M")] []]
    ofDocument sampleDocument = .ok sampleFont ∧ f.charMap = sampleFont.charMap ∧
      (∀ g ∈ f.glyphs, g.Storable) ∧ f.reload = .ok (f.storedWith f.charMap) :=
  ⟨ofDocument_sampleDocument, rfl, storable_changedSample _,
    (reload_eq_records_iff rfl rfl rfl rfl).2.mpr ⟨storable_changedSample _, rfl⟩⟩

/-- A code that is changed in the document is read back as it was changed, entries that are
removed are lost, and one that has no code cannot be read any more. -/
theorem reload_changedSample_ne_records :
    ofDocument sampleDocument = .ok sampleFont ∧
      sampleFont.charMap = [⟨"SW M", "0x40"⟩, ⟨"A", "0x41"⟩, ⟨"SW 250", "0x42"⟩] ∧
      ((changedSample [.element "map" [("code", "0x50"), ("name", "SW M")] [],
        .element "map" [("code", "0x41"), ("name", "A")] [],
        .element "map" [("code", "0x42"), ("name", "SW 250")] []]).reload.map Font.charMap) =
        .ok [⟨"SW M", "0x50"⟩, ⟨"A", "0x41"⟩, ⟨"SW 250", "0x42"⟩] ∧
      ((changedSample []).reload.map Font.charMap) = .ok [] ∧
      (changedSample [.element "map" [("name", "SW M")] []]).reload.map Font.charMap =
        .error (.missingAttribute "map" "code") := by
  have closed (entries : List Node) :=
    reload_eq (f := changedSample entries) rfl rfl rfl rfl (storable_changedSample entries)
  refine ⟨ofDocument_sampleDocument, rfl, ?_, ?_, ?_⟩
  all_goals
    rw [closed]
    rfl

end Font

end SymbolFont
