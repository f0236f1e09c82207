/-
# What passes through records

A document that was read is written with its records in the places of the elements that they were
read from.  What else is in these elements passes through entries of the character map and
through glyphs.  It does not pass through contours and metrics: of a contour nothing but its
points is written, and of these, as of metrics, nothing but their attributes.

So a comment, a text or an element without a record is lost exactly if it lies in a contour or in
metrics.  All others are written in their order, although a glyph is written with its contours in
front of all else.
-/

import SymbolFont.Proofs.Font.Reload
import SymbolFont.Proofs.Markup.Marks

namespace SymbolFont

open Markup

namespace Font

/-- The names of the elements that records are read from. -/
def recordNames : List String :=
  [Glyph.elementName, contourName, "pt", Metric.elementName, entryName]

/-- Open the elements that records are read from: what is in an entry, and what is in a glyph
besides contours, takes its place; a contour and metrics give way to what is said. -/
def openRecords (contour metric : Element → List Node) : Element → Element :=
  mapTables
    (·.expandNamed Glyph.elementName fun glyph => (glyph.expandNamed contourName contour).children)
    (·.expandNamed Metric.elementName metric)
    (·.modifyChild subtableName (·.expandNamed entryName Element.children))

/-- All that is in a document besides the elements that records are read from. -/
def unrecorded : Element → Element :=
  openRecords (fun contour => (contour.expandNamed "pt" Element.children).children)
    Element.children

/-- The same without what is in contours and in metrics. -/
def passing : Element → Element := openRecords (fun _ => []) (fun _ => [])

/-- Is there no mark in contours and in metrics?  What is in points is in contours. -/
structure HasBareRecords (document : Element) : Prop where
  contours : ∀ outlines, document.child? outlinesName = some outlines →
    ∀ glyph ∈ outlines.named Glyph.elementName, ∀ contour ∈ glyph.named contourName,
      Node.marksList recordNames contour.children = []
  metrics : ∀ table, document.child? metricsName = some table →
    ∀ metric ∈ table.named Metric.elementName, Node.marksList recordNames metric.children = []

/-! ## Records are written bare -/

theorem expand_contour_toElement (c : Contour Float) :
    ((Contour.toElement c).expandNamed "pt" Element.children).children = [] := by
  show ((c.map fun p => p.toElement.toNode).flatMap (Node.expand "pt" Element.children)) = []
  rw [List.flatMap_map]
  exact List.flatMap_eq_nil_iff.mpr fun _ _ => rfl

/-- A glyph is written with all that is in its element besides contours, and with nothing in its
contours. -/
theorem expand_glyph_toElement {e : Element} {g : Glyph Float} (read : Glyph.ofElement e = .ok g) :
    (g.toElement.expandNamed contourName fun contour =>
        (contour.expandNamed "pt" Element.children).children).children =
      (e.expandNamed contourName fun _ => []).children := by
  show ((g.contours.map fun c => (Contour.toElement c).toNode) ++ g.other).flatMap _ = _
  have bare : (g.contours.map fun c => (Contour.toElement c).toNode).flatMap
      (Node.expand contourName fun contour =>
        (contour.expandNamed "pt" Element.children).children) = [] := by
    rw [List.flatMap_map]
    exact List.flatMap_eq_nil_iff.mpr fun c _ => expand_contour_toElement c
  obtain ⟨-, -, -, other⟩ := Glyph.ofElement_eq_ok.mp read
  have others := (Glyph.readable_of_ofElement read).other
  rw [List.flatMap_append, bare, List.nil_append,
    List.flatMap_congr fun node mem => Node.expand_of_not_isElement (others node mem),
    List.flatMap_singleton', other]
  exact (Node.flatMap_expand_nil contourName e.children).symm

/-- What is in entries stays in them, whatever names they are given. -/
theorem expandNamed_renameEntries {names : List String} {subtable : Element}
    (length : names.length = (subtable.named entryName).length) :
    (renameEntries names subtable).expandNamed entryName Element.children =
      subtable.expandNamed entryName Element.children := by
  apply Element.expandNamed_replaceNamed
  have named : ∀ e ∈ subtable.named entryName, e.name = entryName :=
    fun _ mem => (Element.mem_named.mp mem).2
  generalize subtable.named entryName = es at length named
  induction es generalizing names with
  | nil => exact .nil
  | cons e es ih =>
      obtain ⟨name, names, rfl⟩ := List.exists_cons_of_length_eq_add_one length
      have rest : names.length = es.length := by simpa using length
      refine .cons ⟨named e List.mem_cons_self, rfl⟩ ?_
      exact ih rest fun x mem => named x (List.mem_cons_of_mem e mem)

/-- Of a document that was read, all is written that passes through records, and nothing besides
them. -/
theorem unrecorded_toDocument {document : Element} {f : Font Float}
    (read : ofDocument document = .ok f) : unrecorded f.toDocument = passing document := by
  obtain ⟨rfl, charMap_read, glyphs_read, metrics_read⟩ := ofDocument_eq_ok.mp read
  obtain ⟨tables, subtable, tables_found, subtable_found, entries_read⟩ :=
    readCharMap_eq_ok.mp charMap_read
  obtain ⟨outlines, outlines_found, glyphs_read⟩ := readGlyphs_eq_ok.mp glyphs_read
  obtain ⟨table, table_found, metrics_read⟩ := readMetrics_eq_ok.mp metrics_read
  rw [toDocument_eq_splice, splice_eq_mapTables, unrecorded, openRecords,
    mapTables_mapTables f.document (Element.keepsName_replaceNamed _ _)
      (Element.keepsName_replaceNamed _ _) (Element.keepsName_modifyChild _ _)
      (Element.keepsName_expandNamed _ _) (Element.keepsName_expandNamed _ _)]
  refine mapTables_congr (Element.keepsName_expandNamed _ _) (Element.keepsName_expandNamed _ _)
    ?in_outlines ?in_table ?in_tables
  case in_outlines =>
    intro e found
    obtain rfl := Option.some.inj (outlines_found.symm.trans found)
    apply Element.expandNamed_replaceNamed
    rw [List.forall₂_map_right_iff]
    exact (forall₂_of_mapM_eq_ok glyphs_read).imp fun _ _ glyph_read =>
      ⟨rfl, expand_glyph_toElement glyph_read⟩
  case in_table =>
    intro e found
    obtain rfl := Option.some.inj (table_found.symm.trans found)
    apply Element.expandNamed_replaceNamed
    rw [List.forall₂_map_right_iff]
    exact (forall₂_of_mapM_eq_ok metrics_read).imp fun _ _ _ => ⟨rfl, rfl⟩
  case in_tables =>
    intro e found
    obtain rfl := Option.some.inj (tables_found.symm.trans found)
    show (tables.modifyChild _ _).modifyChild _ _ = tables.modifyChild _ _
    rw [Element.modifyChild_modifyChild _ (keepsName_renameEntries f.names)]
    refine Element.modifyChild_congr fun e found => ?_
    obtain rfl := Option.some.inj (subtable_found.symm.trans found)
    apply expandNamed_renameEntries
    rw [length_names]
    exact (forall₂_of_mapM_eq_ok entries_read).length_eq.symm

/-! ## Marks -/

section Marks

variable {contour metric : Element → List Node} {document : Element}

/-- Opening entries loses no mark. -/
theorem marks_modifyChild_entries (document : Element) :
    (document.modifyChild charMapName
      (·.modifyChild subtableName (·.expandNamed entryName Element.children))).marks recordNames =
        document.marks recordNames := by
  refine Element.marks_modifyChild_eq_iff.mpr fun tables _ => Node.marks_toNode_eq_iff.mpr ?_
  refine Element.marksList_eq_of_marks (Element.marks_modifyChild_eq_iff.mpr fun subtable _ => ?_)
  refine Node.marks_toNode_eq_iff.mpr ?_
  exact (HasFewerMarks.children.expandNamed_eq_iff (by decide)).mpr fun _ _ => rfl

section Fewer

variable (contour_fewer : HasFewerMarks recordNames contour)
  (metric_fewer : HasFewerMarks recordNames metric)

include contour_fewer in
theorem marks_outlines_sublist (outlines : Element) :
    ((outlines.expandNamed Glyph.elementName fun glyph =>
      (glyph.expandNamed contourName contour).children).toNode.marks recordNames).Sublist
        (outlines.toNode.marks recordNames) :=
  (contour_fewer.expandNamed (by decide)).toNode_expandNamed (by decide) outlines

include metric_fewer in
theorem marks_metrics_sublist (table : Element) :
    ((table.expandNamed Metric.elementName metric).toNode.marks recordNames).Sublist
      (table.toNode.marks recordNames) :=
  metric_fewer.toNode_expandNamed (by decide) table

include contour_fewer metric_fewer

/-- With fewer marks in the places of contours and metrics there are fewer marks. -/
theorem marks_openRecords_sublist :
    List.Forall₂ List.Sublist ((openRecords contour metric document).marks recordNames)
      (document.marks recordNames) := by
  unfold openRecords mapTables
  rw [marks_modifyChild_entries]
  exact forall₂_sublist_trans
    (Element.marks_modifyChild_sublist (marks_outlines_sublist contour_fewer))
    (Element.marks_modifyChild_sublist (marks_metrics_sublist metric_fewer))

/-- Then there are as many only if there are as many in the place of each. -/
theorem marks_openRecords_eq_iff :
    (openRecords contour metric document).marks recordNames = document.marks recordNames ↔
      (∀ outlines, document.child? outlinesName = some outlines →
        ∀ glyph ∈ outlines.named Glyph.elementName, ∀ e ∈ glyph.named contourName,
          Node.marksList recordNames (contour e) = Node.marksList recordNames e.children) ∧
      ∀ table, document.child? metricsName = some table →
        ∀ e ∈ table.named Metric.elementName,
          Node.marksList recordNames (metric e) = Node.marksList recordNames e.children := by
  have differ : metricsName ≠ outlinesName := by decide
  have glyph_fewer : HasFewerMarks recordNames fun glyph =>
      (glyph.expandNamed contourName contour).children := contour_fewer.expandNamed (by decide)
  unfold openRecords mapTables
  rw [marks_modifyChild_entries,
    eq_iff_of_forall₂_sublist
      (Element.marks_modifyChild_sublist (marks_outlines_sublist contour_fewer))
      (Element.marks_modifyChild_sublist (marks_metrics_sublist metric_fewer)),
    Element.marks_modifyChild_eq_iff, Element.marks_modifyChild_eq_iff,
    Element.child?_modifyChild_of_ne document (Element.keepsName_expandNamed _ _) differ]
  refine and_congr (forall₂_congr fun outlines _ => ?_) (forall₂_congr fun table _ => ?_)
  · refine Node.marks_toNode_eq_iff.trans ((glyph_fewer.expandNamed_eq_iff (by decide)).trans ?_)
    exact forall₂_congr fun glyph _ => contour_fewer.expandNamed_eq_iff (by decide)
  · exact Node.marks_toNode_eq_iff.trans (metric_fewer.expandNamed_eq_iff (by decide))

end Fewer

/-- All marks of a document are in what it holds besides records. -/
theorem marks_unrecorded (document : Element) :
    (unrecorded document).marks recordNames = document.marks recordNames := by
  refine (marks_openRecords_eq_iff (HasFewerMarks.children.expandNamed (by decide))
    HasFewerMarks.children).mpr ⟨fun _ _ _ _ contour _ => ?_, fun _ _ _ _ => rfl⟩
  exact (HasFewerMarks.children.expandNamed_eq_iff (by decide)).mpr fun _ _ => rfl

/-- The marks that pass are those that are written. -/
theorem marks_toDocument {f : Font Float} (read : ofDocument document = .ok f) :
    f.toDocument.marks recordNames = (passing document).marks recordNames := by
  rw [← marks_unrecorded, unrecorded_toDocument read]

/-- No mark is lost on passing exactly if the records are bare. -/
theorem marks_passing_eq_iff :
    (passing document).marks recordNames = document.marks recordNames ↔
      HasBareRecords document := by
  refine (marks_openRecords_eq_iff .nil .nil).trans ⟨fun ⟨contours, metrics⟩ => ?_, ?_⟩
  · exact {
      contours := fun outlines found glyph glyph_mem contour mem =>
        (contours outlines found glyph glyph_mem contour mem).symm
      metrics := fun table found metric mem => (metrics table found metric mem).symm }
  · intro bare
    exact ⟨fun outlines found glyph glyph_mem contour mem =>
        (bare.contours outlines found glyph glyph_mem contour mem).symm,
      fun table found metric mem => (bare.metrics table found metric mem).symm⟩

end Marks

/-- What is lost lies in contours and in metrics.  Of a document that was read, all that is there
besides records is written as it was, each node in its place, but for what is in contours and in
metrics.  So in each child of the root tags, texts and comments are written in their order, none
is added, and none is lost exactly if there is none in a contour or in metrics. -/
theorem lost_inside_records_only {document : Element} {f : Font Float}
    (read : ofDocument document = .ok f) :
    unrecorded f.toDocument = passing document ∧
      f.toDocument.marks recordNames = (passing document).marks recordNames ∧
      List.Forall₂ List.Sublist (f.toDocument.marks recordNames) (document.marks recordNames) ∧
      (f.toDocument.marks recordNames = document.marks recordNames ↔ HasBareRecords document) := by
  have marks := marks_toDocument read
  refine ⟨unrecorded_toDocument read, marks, ?_, ?_⟩
  · rw [marks]
    exact marks_openRecords_sublist .nil .nil
  · rw [marks]
    exact marks_passing_eq_iff

/-- A document with comments in all kinds of records. -/
def commentedDocument : Element where
  name := "ttFont"
  children :=
    [.element "cmap" [] [.element "cmap_format_12" []
      [.element "map" [("code", "0x41"), ("name", "A")] [.comment " entry "]]],
    .element "glyf" [] [.element "TTGlyph" [("name", "A")]
      [.comment " outline ",
      .element "contour" [] [.comment " start ", .element "pt" [("x", "0"), ("y", "0")] []],
      .element "instructions" [] [.text "PUSHB"]]],
    .element "hmtx" [] [.element "mtx" [("name", "A"), ("width", "0"), ("lsb", "0")]
      [.comment " advance "]],
    .comment " end "]

theorem exists_ofDocument_commentedDocument : ∃ f, ofDocument commentedDocument = .ok f := by
  have checked : (ofDocument commentedDocument).toOption.any (fun _ => true) = true := by
    decide +kernel
  obtain ⟨f, read, -⟩ := exists_of_any_toOption checked
  exact ⟨f, read⟩

/-- Of these comments two are lost, and all else that is not in a record is written. -/
theorem lost_inside_records_only_of_comments :
    ∃ f, ofDocument commentedDocument = .ok f ∧
      f.toDocument.marks recordNames =
        [[.opening "cmap" [], .opening "cmap_format_12" [], .comment " entry ", .closing, .closing],
        [.opening "glyf" [], .comment " outline ", .opening "instructions" [], .text "PUSHB",
          .closing, .closing],
        [.opening "hmtx" [], .closing],
        [.comment " end "]] := by
  obtain ⟨f, read⟩ := exists_ofDocument_commentedDocument
  obtain ⟨-, marks, -⟩ := lost_inside_records_only read
  exact ⟨f, read, marks.trans (by decide)⟩

/-- A comment in a contour is lost, and one in metrics. -/
theorem comments_lost_inside_records :
    ∃ f, ofDocument commentedDocument = .ok f ∧
      f.toDocument.marks recordNames ≠ commentedDocument.marks recordNames ∧
      ∀ comment ∈ [" start ", " advance "],
        Mark.comment comment ∈ (commentedDocument.marks recordNames).flatten ∧
        Mark.comment comment ∉ (f.toDocument.marks recordNames).flatten := by
  obtain ⟨f, read⟩ := exists_ofDocument_commentedDocument
  refine ⟨f, read, ?_, ?_⟩
  · rw [marks_toDocument read]
    decide
  · rw [marks_toDocument read]
    decide

end Font

end SymbolFont
