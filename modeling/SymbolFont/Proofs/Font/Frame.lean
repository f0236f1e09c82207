/-
# What writing records leaves alone

A font whose records have been changed, but neither added nor removed, writes the document that it
was read from with its records in the places of those that were read.  Only elements that hold
records are replaced, each by the record of its rank; in the character map only the names are,
where they stand among the attributes.  All other nodes stay in their places as they were,
whatever lies between the records and however many tables of one name there are.
-/

import SymbolFont.Proofs.Edit.Reload
import SymbolFont.Proofs.Font.Reload
import SymbolFont.Proofs.Markup.Place

namespace SymbolFont

open Markup

namespace Font

/-- The entry in a place bears the name of its rank, where its first name stood; its other
attributes, its children and all nodes that are no entries are as before. -/
def Renamed (names : List String) (siblings : List Node) (i : Nat) (node node' : Node) : Prop :=
  if node.isElement entryName then
    ∃ own front old back children name,
      node = .element own (front ++ ("name", old) :: back) children ∧
      (∀ pair ∈ front, pair.1 ≠ "name") ∧
      names[Node.rank entryName siblings i]? = some name ∧
      node' = .element own (front ++ ("name", name) :: back) children
  else node' = node

/-- The node in a place of the root is as before, unless it is the first table of one of the
three kinds; in this the records are written in their places. -/
def Written (f : Font Float) (siblings : List Node) (i : Nat) (node node' : Node) : Prop :=
  if Node.isFirst outlinesName siblings i then
    Node.InPlace (Node.Replaced Glyph.elementName (f.glyphs.map Glyph.toElement)) node node'
  else if Node.isFirst metricsName siblings i then
    Node.InPlace (Node.Replaced Metric.elementName (f.metrics.map Metric.toElement)) node node'
  else if Node.isFirst charMapName siblings i then
    Node.InPlace (fun siblings i node node' =>
      if Node.isFirst subtableName siblings i then Node.InPlace (Renamed f.names) node node'
      else node' = node) node node'
  else node' = node

/-! ## Entries -/

/-- A new value is given to an attribute where its first value stood. -/
theorem exists_setFirst_eq {key old : String} {attributes : Attributes}
    (found : attributes.lookup key = some old) (value : String) :
    ∃ front back, attributes = front ++ (key, old) :: back ∧ (∀ pair ∈ front, pair.1 ≠ key) ∧
      Element.setFirst key value attributes = front ++ (key, value) :: back := by
  induction attributes with
  | nil => cases found
  | cons pair attributes ih =>
      obtain ⟨own, own_value⟩ := pair
      by_cases first : own = key
      · subst first
        rw [List.lookup_cons_self] at found
        obtain rfl := Option.some.inj found
        refine ⟨[], attributes, rfl, fun _ mem => absurd mem List.not_mem_nil, ?_⟩
        rw [Element.setFirst, if_pos rfl]
        rfl
      · rw [Element.lookup_cons_of_ne _ _ (Ne.symm first)] at found
        obtain ⟨front, back, split, none, set⟩ := ih found
        refine ⟨(own, own_value) :: front, back, by rw [split]; rfl, ?_, ?_⟩
        · intro pair mem
          rcases List.mem_cons.mp mem with rfl | mem
          · exact first
          · exact none pair mem
        · rw [Element.setFirst, if_neg first, set]
          rfl

/-- Entries are renamed in their places. -/
theorem inPlace_renameEntries {names : List String} {subtable : Element}
    (length : names.length = (subtable.named entryName).length)
    (named : ∀ e ∈ subtable.named entryName, (e.attr? "name").isSome) :
    Element.InPlace (Renamed names) subtable (renameEntries names subtable) := by
  have replaced : Element.InPlace (Node.Replaced entryName
      (((subtable.named entryName).zip names).map fun pair => pair.1.setAttr "name" pair.2))
      subtable (renameEntries names subtable) := by
    apply Element.inPlace_replaceNamed
    simp [length]
  -- The replacement of an entry is the entry of the same rank with a new name.
  refine replaced.imp fun i node node' at_i became => ?_
  unfold Node.Replaced at became
  unfold Renamed
  by_cases hit : node.isElement entryName = true
  · rw [if_pos hit] at became ⊢
    obtain ⟨e, at_rank, rfl⟩ := Element.exists_named_rank at_i hit
    obtain ⟨renamed, renamed_at, rfl⟩ := Option.map_eq_some_iff.mp became
    rw [List.getElem?_map] at renamed_at
    obtain ⟨⟨source, name⟩, pair_at, rfl⟩ := Option.map_eq_some_iff.mp renamed_at
    obtain ⟨source_at, name_at⟩ := List.getElem?_zip_eq_some.mp pair_at
    obtain rfl : e = source := Option.some.inj (at_rank.symm.trans source_at)
    obtain ⟨old, found⟩ := Option.isSome_iff_exists.mp (named e (List.mem_of_getElem? at_rank))
    obtain ⟨front, back, split, none, set⟩ := exists_setFirst_eq found name
    refine ⟨e.name, front, old, back, e.children, name, ?_, none, name_at, ?_⟩
    · rw [Element.toNode, split]
    · rw [← set]
      rfl
  · rw [if_neg hit] at became ⊢
    exact became

/-! ## Tables -/

/-- A document with records written into it, place by place: the first table of each kind is
changed by itself. -/
theorem getElem?_children_toDocument (f : Font Float) (i : Nat) :
    f.toDocument.children[i]? = f.document.children[i]?.map fun node =>
      if Node.isFirst outlinesName f.document.children i then
        Node.mapElement (·.replaceNamed Glyph.elementName (f.glyphs.map Glyph.toElement)) node
      else if Node.isFirst metricsName f.document.children i then
        Node.mapElement (·.replaceNamed Metric.elementName (f.metrics.map Metric.toElement)) node
      else if Node.isFirst charMapName f.document.children i then
        Node.mapElement (·.modifyChild subtableName (renameEntries f.names)) node
      else node := by
  have glyphs_keeps := Element.keepsName_replaceNamed Glyph.elementName
    (f.glyphs.map Glyph.toElement)
  have metrics_keeps := Element.keepsName_replaceNamed Metric.elementName
    (f.metrics.map Metric.toElement)
  rw [toDocument_eq_splice]
  show (Node.modifyFirst _ _
    (Node.modifyFirst _ _ (Node.modifyFirst _ _ f.document.children)))[i]? = _
  rw [Node.getElem?_modifyFirst, Node.getElem?_modifyFirst, Node.getElem?_modifyFirst,
    Node.isFirst_modifyFirst metrics_keeps, Node.isFirst_modifyFirst glyphs_keeps,
    Node.isFirst_modifyFirst glyphs_keeps, Option.map_map, Option.map_map]
  congr 1
  funext node
  simp only [Function.comp]
  by_cases outlines : Node.isFirst outlinesName f.document.children i = true
  · rw [if_pos outlines, if_pos outlines,
      Node.not_isFirst_of_isFirst outlines (by decide : metricsName ≠ outlinesName),
      Node.not_isFirst_of_isFirst outlines (by decide : charMapName ≠ outlinesName)]
    rfl
  · rw [if_neg outlines, if_neg outlines]
    by_cases metrics : Node.isFirst metricsName f.document.children i = true
    · rw [if_pos metrics, if_pos metrics,
        Node.not_isFirst_of_isFirst metrics (by decide : charMapName ≠ metricsName)]
      rfl
    · rw [if_neg metrics, if_neg metrics]

/-- The first table of a name is the one that look-ups find. -/
theorem exists_of_isFirst {document e : Element} {name : String} {i : Nat} {node : Node}
    (found : document.child? name = some e) (first : Node.isFirst name document.children i = true)
    (at_i : document.children[i]? = some node) : node = e.toNode := by
  obtain ⟨e', same, found'⟩ := Node.exists_of_isFirst first at_i
  obtain rfl : e' = e := Option.some.inj (found'.symm.trans found)
  exact same

/-- Names are written into the first character map of the first table of character maps. -/
theorem inPlace_modifyChild_renameEntries {names : List String} {tables subtable : Element}
    (found : tables.child? subtableName = some subtable)
    (length : names.length = (subtable.named entryName).length)
    (named : ∀ e ∈ subtable.named entryName, (e.attr? "name").isSome) :
    Element.InPlace (fun siblings i node node' =>
        if Node.isFirst subtableName siblings i then Node.InPlace (Renamed names) node node'
        else node' = node)
      tables (tables.modifyChild subtableName (renameEntries names)) := by
  refine (Element.inPlace_modifyChild tables _).imp fun i node node' at_i became => ?_
  by_cases first : Node.isFirst subtableName tables.children i = true
  · rw [if_pos first] at became ⊢
    obtain rfl := exists_of_isFirst found first at_i
    exact ⟨subtable, _, rfl, became, inPlace_renameEntries length named⟩
  · rw [if_neg first] at became ⊢
    exact became

/-- Writing the records back touches nothing else: the root keeps its name and its attributes,
the first table of each kind is written into, record by record, and every other node stays in
its place as it was. -/
theorem toDocument_inPlace {document : Element} {f f' : Font Float}
    (read : ofDocument document = .ok f) (same : f'.document = f.document)
    (entries : f'.charMap.length = f.charMap.length)
    (glyphs : f'.glyphs.length = f.glyphs.length)
    (metrics : f'.metrics.length = f.metrics.length) :
    Element.InPlace f'.Written document f'.toDocument ∧
      (∃ outlines, document.child? outlinesName = some outlines ∧
        (outlines.named Glyph.elementName).length = f'.glyphs.length) ∧
      (∃ table, document.child? metricsName = some table ∧
        (table.named Metric.elementName).length = f'.metrics.length) ∧
      ∃ tables subtable, document.child? charMapName = some tables ∧
        tables.child? subtableName = some subtable ∧
        (subtable.named entryName).length = f'.charMap.length := by
  obtain ⟨rfl, charMap_read, glyphs_read, metrics_read⟩ := ofDocument_eq_ok.mp read
  obtain ⟨tables, subtable, tables_found, subtable_found, entries_read⟩ :=
    readCharMap_eq_ok.mp charMap_read
  obtain ⟨outlines, outlines_found, glyphs_read⟩ := readGlyphs_eq_ok.mp glyphs_read
  obtain ⟨table, table_found, metrics_read⟩ := readMetrics_eq_ok.mp metrics_read
  have entries_count := (forall₂_of_mapM_eq_ok entries_read).length_eq.trans entries.symm
  have glyphs_count := (forall₂_of_mapM_eq_ok glyphs_read).length_eq.trans glyphs.symm
  have metrics_count := (forall₂_of_mapM_eq_ok metrics_read).length_eq.trans metrics.symm
  have named : ∀ e ∈ subtable.named entryName, (e.attr? "name").isSome := by
    intro e mem
    have found : e.attr? "name" ∈ f.names.map some := by
      rw [Font.names, ← (map_attr?_of_mapM entries_read).1]
      exact List.mem_map_of_mem mem
    obtain ⟨name, -, same⟩ := List.mem_map.mp found
    rw [← same]
    rfl
  rw [← same] at tables_found outlines_found table_found ⊢
  refine ⟨?_, ⟨outlines, outlines_found, glyphs_count⟩, ⟨table, table_found, metrics_count⟩,
    tables, subtable, tables_found, subtable_found, entries_count⟩
  refine (Element.inPlace_of_getElem? (getElem?_children_toDocument f')).imp
    fun i node node' at_i became => ?_
  -- No place is the first of two kinds, so the kinds may be asked for one after the other.
  unfold Written
  by_cases first : Node.isFirst outlinesName f'.document.children i = true
  · rw [if_pos first] at became ⊢
    obtain rfl := exists_of_isFirst outlines_found first at_i
    exact ⟨outlines, _, rfl, became,
      outlines.inPlace_replaceNamed (by rw [List.length_map, glyphs_count])⟩
  rw [if_neg first] at became ⊢
  by_cases first : Node.isFirst metricsName f'.document.children i = true
  · rw [if_pos first] at became ⊢
    obtain rfl := exists_of_isFirst table_found first at_i
    exact ⟨table, _, rfl, became,
      table.inPlace_replaceNamed (by rw [List.length_map, metrics_count])⟩
  rw [if_neg first] at became ⊢
  by_cases first : Node.isFirst charMapName f'.document.children i = true
  · rw [if_pos first] at became ⊢
    obtain rfl := exists_of_isFirst tables_found first at_i
    refine ⟨tables, _, rfl, became, inPlace_modifyChild_renameEntries subtable_found ?_ named⟩
    rw [Font.names, List.length_map, entries_count]
  · rw [if_neg first] at became ⊢
    exact became

/-- The sample with other names, bounds, outlines and widths. -/
def renamedSample : Font Float :=
  { sampleFont with
    charMap := [⟨"SWM", "0x40"⟩, ⟨"SW 2", "0x41"⟩, ⟨"B", "0x42"⟩]
    glyphs :=
      [{ name := "SWM", other := [.comment " box "] }, { name := "SW 2" },
      { name := "B", bounds := some ⟨0, 0, 2, 2⟩,
        contours := [[{ x := 2, y := 2, onCurve := true }]] }]
    metrics := [⟨"SWM", 500, 0⟩, ⟨"SW 2", 0, 0⟩, ⟨"B", 500, 1⟩] }

/-- The renamed sample is written in the places of the sample.  Between its records and its tables
all nodes stay where they are, as does the second table of glyphs. -/
theorem toDocument_inPlace_of_renamedSample :
    ofDocument sampleDocument = .ok sampleFont ∧
      renamedSample.document = sampleFont.document ∧
      renamedSample.charMap.length = sampleFont.charMap.length ∧
      renamedSample.glyphs.length = sampleFont.glyphs.length ∧
      renamedSample.metrics.length = sampleFont.metrics.length ∧
      Element.InPlace renamedSample.Written sampleDocument renamedSample.toDocument := by
  have same : renamedSample.document = sampleFont.document := rfl
  obtain ⟨placed, -⟩ := toDocument_inPlace ofDocument_sampleDocument same rfl rfl rfl
  exact ⟨ofDocument_sampleDocument, same, rfl, rfl, rfl, placed⟩

end Font

end SymbolFont
