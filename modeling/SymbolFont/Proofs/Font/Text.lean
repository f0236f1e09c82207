/-
# Fonts as texts

A font is saved as the text of its document.  A sink with room enough takes all of it, and if
the document is faithful, it is read as the same font: entry by entry, with numbers as documents
hold them and with the nodes that glyphs pass on in their normal form.

This does not go for all documents.  A name loses its prefix where it is read, so two attributes
may be saved under one name, and then the text is no document any more.
-/

import Mathlib.Tactic.Common
import SymbolFont.Proofs.Font.Reload
import SymbolFont.Proofs.Glyph.Kept
import SymbolFont.Proofs.Markup.RoundTrip
import SymbolFont.Proofs.Markup.Sound
import SymbolFont.Proofs.Markup.Writing

namespace SymbolFont

open Markup

/-! ## Saving -/

/-- A sink with room for a document takes all of it. -/
theorem Markup.Element.deliver_of_le {e : Element} {room : Nat}
    (fits : (Text.bytesOf e.document).length ≤ room) :
    e.deliver room =
      (⟨Text.bytesOf e.document, some (room - (Text.bytesOf e.document).length)⟩, none) := by
  have fault : e.faultWithin room = none := if_pos fits
  rw [deliver_eq, fault, if_pos rfl, List.take_of_length_le fits]

namespace Font

variable {document : Element}

/-! ## The document is kept -/

theorem isKeptValue_of_readCharMap {entries : List CharMapEntry} {entry : CharMapEntry}
    (kept : document.meets .kept = true) (read : readCharMap document = .ok entries)
    (mem : entry ∈ entries) : isKeptValue entry.name.toList = true := by
  obtain ⟨tables, subtable, tables_found, subtable_found, read⟩ := readCharMap_eq_ok.mp read
  obtain ⟨e, e_mem, entry_read⟩ := exists_of_mem_of_mapM_eq_ok read mem
  have tables_kept := Element.meets_of_child? kept tables_found
  have subtable_kept := Element.meets_of_child? tables_kept subtable_found
  exact CharMapEntry.isKeptValue_name (Element.meets_of_mem_named subtable_kept e_mem) entry_read

theorem meets_toElement_of_readGlyphs {glyphs : List (Glyph Float)} {g : Glyph Float}
    (kept : document.meets .kept = true) (read : readGlyphs document = .ok glyphs)
    (mem : g ∈ glyphs) : g.toElement.meets .kept = true := by
  obtain ⟨outlines, found, read⟩ := readGlyphs_eq_ok.mp read
  obtain ⟨e, e_mem, glyph_read⟩ := exists_of_mem_of_mapM_eq_ok read mem
  have outlines_kept := Element.meets_of_child? kept found
  exact Glyph.meets_toElement (Glyph.readable_of_ofElement glyph_read)
    (Glyph.isKept_of_ofElement (Element.meets_of_mem_named outlines_kept e_mem) glyph_read)

theorem meets_toElement_of_readMetrics {metrics : List (Metric Float)} {m : Metric Float}
    (kept : document.meets .kept = true) (read : readMetrics document = .ok metrics)
    (mem : m ∈ metrics) : m.toElement.meets .kept = true := by
  obtain ⟨table, found, read⟩ := readMetrics_eq_ok.mp read
  obtain ⟨e, e_mem, metric_read⟩ := exists_of_mem_of_mapM_eq_ok read mem
  have table_kept := Element.meets_of_child? kept found
  exact Metric.meets_toElement
    (Metric.isKeptValue_name (Element.meets_of_mem_named table_kept e_mem) metric_read)

theorem meets_overlayGlyphs {d : Demands} {glyphs : List (Glyph Float)}
    (all : ∀ g ∈ glyphs, g.toElement.meets d = true) (met : document.meets d = true) :
    (overlayGlyphs glyphs document).meets d = true := by
  refine Element.meets_modifyChild (fun outlines outlines_met => ?_) met
  exact Element.meets_replaceNamed outlines_met (List.forall_mem_map.mpr all)

theorem meets_overlayMetrics {d : Demands} {metrics : List (Metric Float)}
    (all : ∀ m ∈ metrics, m.toElement.meets d = true) (met : document.meets d = true) :
    (overlayMetrics metrics document).meets d = true := by
  refine Element.meets_modifyChild (fun table table_met => ?_) met
  exact Element.meets_replaceNamed table_met (List.forall_mem_map.mpr all)

theorem meets_overlayCharMap {entries : List CharMapEntry}
    (names : ∀ entry ∈ entries, isKeptValue entry.name.toList = true)
    (kept : document.meets .kept = true) :
    (overlayCharMap entries document).meets .kept = true := by
  have renamed : ∀ (e : Element), ∀ entry ∈ entries, e.meets .kept = true →
      (e.setAttr "name" entry.name).meets .kept = true := by
    intro e entry mem e_kept
    obtain ⟨tag, children⟩ := Element.meets_iff.mp e_kept
    obtain ⟨name_plain, attributes⟩ := Bool.and_eq_true_iff.mp tag
    exact Element.meets_iff.mpr ⟨Bool.and_eq_true_iff.mpr ⟨name_plain,
      areKeptAttributes_setFirst (by decide) (by decide) (names entry mem) attributes⟩, children⟩
  refine Element.meets_modifyChild (fun tables tables_kept => ?_) kept
  refine Element.meets_modifyChild (fun subtable subtable_kept => ?_) tables_kept
  refine Element.meets_replaceNamed subtable_kept (List.forall_mem_map.mpr ?_)
  rintro ⟨e, entry⟩ mem
  obtain ⟨e_mem, entry_mem⟩ := List.of_mem_zip mem
  exact renamed e entry entry_mem (Element.meets_of_mem_named subtable_kept e_mem)

/-- A font writes a document that is kept if it was read from one. -/
theorem meets_toDocument {f : Font Float} (read : ofDocument document = .ok f)
    (kept : document.meets .kept = true) : f.toDocument.meets .kept = true := by
  obtain ⟨rfl, charMap_read, glyphs_read, metrics_read⟩ := ofDocument_eq_ok.mp read
  refine meets_overlayCharMap (fun _ mem => isKeptValue_of_readCharMap kept charMap_read mem) ?_
  refine meets_overlayMetrics
    (fun _ mem => meets_toElement_of_readMetrics kept metrics_read mem) ?_
  exact meets_overlayGlyphs (fun _ mem => meets_toElement_of_readGlyphs kept glyphs_read mem) kept

/-! ## The normal form is read -/

theorem requiredChild_normal (e : Element) (name : String) :
    e.normal.requiredChild name = (e.requiredChild name).map Element.normal := by
  rw [Element.requiredChild, Element.requiredChild, Element.child?_normal]
  cases e.child? name <;> rfl

/-- Reading children that go by attributes alone goes through the normal form. -/
theorem mapM_named_normal {α : Type} {read : Element → Except ReadError α}
    (same : ∀ e : Element, read e.normal = read e) (e : Element) (name : String) :
    (e.normal.named name).mapM read = (e.named name).mapM read := by
  rw [Element.named_normal, List.mapM_map]
  exact congrArg (fun read => List.mapM read (e.named name)) (funext same)

/-- Reading a child goes through the normal form if the reader of the child does. -/
theorem bind_requiredChild_normal {α : Type} {read : Element → Except ReadError α}
    (same : ∀ child : Element, read child.normal = read child) (e : Element) (name : String) :
    e.normal.requiredChild name >>= read = e.requiredChild name >>= read := by
  rw [requiredChild_normal]
  cases e.requiredChild name with
  | error fault => rfl
  | ok child => exact same child

theorem readCharMap_normal (document : Element) :
    readCharMap document.normal = readCharMap document := by
  refine bind_requiredChild_normal (fun tables => ?_) document charMapName
  refine bind_requiredChild_normal (fun subtable => ?_) tables subtableName
  exact mapM_named_normal CharMapEntry.ofElement_normal subtable entryName

theorem readMetrics_normal (document : Element) :
    readMetrics document.normal = readMetrics document := by
  refine bind_requiredChild_normal (fun table => ?_) document metricsName
  exact mapM_named_normal Metric.ofElement_normal table Metric.elementName

/-- Of the glyphs the normal form keeps all but the form of the nodes that are passed on. -/
theorem Stores.readGlyphs_normal {f : Font Float} {codes : List String} (stores : f.Stores codes) :
    readGlyphs f.toDocument.normal = .ok (f.glyphs.map Glyph.asRead) := by
  obtain ⟨outlines, found⟩ := stores.outlines
  have now := child?_outlinesName_toDocument found
  rw [readGlyphs, requiredChild_normal, requiredChild_eq_ok.mpr now]
  show ((Element.normal _).named Glyph.elementName).mapM Glyph.ofElement = _
  rw [Element.named_normal, Element.named_replaceNamed _ fun _ mem => name_of_mem_glyphElements mem,
    List.map_map]
  exact mapM_map_eq_ok fun g mem => Glyph.ofElement_normal_toElement (stores.glyphs g mem)

/-- What is read from the normal form of the document that a font writes. -/
theorem Stores.ofDocument_normal {f : Font Float} {codes : List String} (stores : f.Stores codes) :
    ofDocument f.toDocument.normal = .ok
      { f.asWritten codes with
        glyphs := f.glyphs.map Glyph.asRead, document := f.toDocument.normal } := by
  obtain ⟨-, charMap_read, -, metrics_read⟩ := ofDocument_eq_ok.mp stores.reload
  rw [ofDocument, readCharMap_normal, charMap_read, stores.readGlyphs_normal, readMetrics_normal,
    metrics_read]
  rfl

/-! ## Saving and loading -/

theorem ofText_eq_ok {text : String} {f : Font Float} (read : ofText text = .ok f) :
    Element.ofText? text = some f.document ∧ ofDocument f.document = .ok f := by
  rw [ofText] at read
  split at read
  · rename_i document found
    obtain ⟨rfl, -⟩ := ofDocument_eq_ok.mp read
    exact ⟨found, read⟩
  · cases read

/-- A font from a faithful document is saved whole by a sink with room enough, and loading it
gives the same records: numbers as documents hold them, and the nodes that glyphs pass on in
their normal form, which changes nothing where they are tidy. -/
theorem ofText_text_of_faithful {text : String} {f : Font Float} (read : ofText text = .ok f)
    (faithful : f.document.meets .faithful = true) :
    (∀ room, (Text.bytesOf f.text).length ≤ room →
      f.toDocument.deliver room =
        (⟨Text.bytesOf f.text, some (room - (Text.bytesOf f.text).length)⟩, none)) ∧
      ∃ g, ofText f.text = .ok g ∧ g.charMap = f.charMap ∧
        g.glyphs = f.glyphs.map Glyph.asRead ∧ g.metrics = f.metrics.map Metric.asWritten ∧
        ((∀ glyph ∈ f.glyphs, Node.areTidy false glyph.other = true) →
          g.glyphs = f.glyphs.map Glyph.asWritten) := by
  refine ⟨fun room fits => Element.deliver_of_le fits, ?_⟩
  obtain ⟨document_read, records_read⟩ := ofText_eq_ok read
  have kept := Element.meets_kept (Element.meets_read_of_ofBytes? document_read) faithful
  have again : Element.ofText? f.text = some f.toDocument.normal :=
    Element.ofText?_document_of_kept (meets_toDocument records_read kept)
  have loaded := (stores_of_ofDocument records_read).ofDocument_normal
  refine ⟨_, by rw [ofText, again]; exact loaded, withCodes_map_code f, rfl, rfl, fun tidy => ?_⟩
  exact List.map_congr_left fun g mem => Glyph.asRead_of_areTidy (tidy g mem)

/-- A font with names that have prefixes, a section of character data, references and comments. -/
def prefixedText : String :=
  "<ttFont xmlns:f=\"f\"><f:cmap><cmap_format_12><map code=\"65\" name=\"A&amp;B\"/>" ++
    "</cmap_format_12></f:cmap><glyf><TTGlyph name=\"A&amp;B\"><!-- one point --><contour>" ++
    "<pt x=\"1\" y=\"-2.5\" f:on=\"1\"/></contour><a><![CDATA[<b>]]></a></TTGlyph></glyf>" ++
    "<!--end--><hmtx><mtx name=\"A\" width=\"500\" lsb=\"0\"/></hmtx></ttFont>"

/-- The font with prefixes is saved, and is loaded as it was. -/
theorem ofText_text_of_prefixedText :
    ∃ f, ofText prefixedText = .ok f ∧ f.document.meets .faithful = true ∧
      (∀ glyph ∈ f.glyphs, Node.areTidy false glyph.other = true) ∧
      f.toDocument.deliver (Text.bytesOf f.text).length =
        (⟨Text.bytesOf f.text, some 0⟩, none) ∧
      ∃ g, ofText f.text = .ok g ∧ g.charMap = f.charMap ∧
        g.glyphs = f.glyphs.map Glyph.asWritten ∧ g.metrics = f.metrics.map Metric.asWritten := by
  have checked : (ofText prefixedText).toOption.any (fun f => f.document.meets .faithful &&
      f.glyphs.all fun glyph => Node.areTidy false glyph.other) = true := by decide +kernel
  obtain ⟨f, read, passed⟩ := exists_of_any_toOption checked
  obtain ⟨faithful, all⟩ := Bool.and_eq_true_iff.mp passed
  have tidy := List.all_eq_true.mp all
  obtain ⟨saved, g, loaded, charMap, -, metrics, glyphs⟩ := ofText_text_of_faithful read faithful
  have fits := saved _ (Nat.le_refl _)
  rw [Nat.sub_self] at fits
  exact ⟨f, read, faithful, tidy, fits, g, loaded, charMap, glyphs tidy, metrics⟩

/-! ## Names that meet -/

/-- A font with two attributes that differ by a prefix. -/
def languagesText : String :=
  "<ttFont><cmap><cmap_format_12/></cmap><glyf/><hmtx/>" ++
    "<name lang=\"en\" xml:lang=\"de\"/></ttFont>"

/-- The font is read, but what it is saved as is no document. -/
theorem ofText_text_of_languagesText :
    ∃ f, ofText languagesText = .ok f ∧ ofText f.text = .error .malformed := by
  have checked : (ofText languagesText).toOption.any
      (fun f => Element.ofText? f.text == none) = true := by decide +kernel
  obtain ⟨f, read, refused⟩ := exists_of_any_toOption checked
  refine ⟨f, read, ?_⟩
  rw [ofText, eq_of_beq refused]

end Font

end SymbolFont
