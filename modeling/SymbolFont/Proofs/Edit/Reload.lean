/-
# Saving and reading again between edits

Whatever edits a font has been through, the document that it writes is read as the same font:
every edit keeps the places of the records in the document and what can be read again of
glyphs.  And going on with the font that was read back makes no difference to what is written
in the end, since every edit keeps two fonts alike that are alike.
-/

import Mathlib.Tactic.Common
import SymbolFont.Edit.Basic
import SymbolFont.Proofs.Font.Lookup
import SymbolFont.Proofs.Font.Reload
import SymbolFont.Proofs.Glyph.Outline

namespace SymbolFont

open Markup

/-- A name that does not begin with the marker and a space is correct. -/
theorem corrected_eq_self {name : String} (unmarked : ¬ "SW ".toList <+: name.toList) :
    corrected name = name := by
  have none : corrected? name = none := by
    unfold corrected?
    split
    · rename_i rest text
      rw [text] at unmarked
      exact absurd ⟨rest, rfl⟩ unmarked
    · rfl
  rw [corrected, none]
  rfl

/-! ## What can be read again of glyphs -/

namespace Glyph

theorem Readable.correctNames {g : Glyph Float} (readable : g.Readable) :
    g.correctNames.Readable := by
  refine ⟨readable.points, ?_⟩
  intro node mem
  rw [Glyph.correctNames, Node.mapValuesList_eq_map] at mem
  obtain ⟨source, source_mem, rfl⟩ := List.mem_map.mp mem
  rw [Node.isElement_mapValues]
  exact readable.other source source_mem

theorem Readable.hollow {g : Glyph Float} (readable : g.Readable) :
    (if g.isFilledNumeral then { g with contours := [] } else g).Readable := by
  split
  · exact ⟨fun _ mem => absurd mem List.not_mem_nil, readable.other⟩
  · exact readable

theorem Readable.rescale {g : Glyph Float} (readable : g.Readable) (factor : Float) :
    (g.rescale factor).Readable := by
  unfold Glyph.rescale
  split
  · exact readable
  · split
    · refine ⟨?_, readable.other⟩
      intro c mem p p_mem
      obtain ⟨contour, contour_mem, rfl⟩ := List.mem_map.mp mem
      obtain ⟨source, source_mem, rfl⟩ := List.mem_map.mp p_mem
      have kept := readable.points contour contour_mem source source_mem
      exact ⟨kept.extra, kept.flags⟩
    · exact readable

/-! ## Edits of glyphs as documents hold them -/

theorem asWritten_correctNames (g : Glyph Float) :
    g.correctNames.asWritten = g.asWritten.correctNames := rfl

theorem asWritten_hollow (g : Glyph Float) :
    (if g.isFilledNumeral then { g with contours := [] } else g).asWritten =
      if g.asWritten.isFilledNumeral then { g.asWritten with contours := [] } else g.asWritten := by
  have filled : g.asWritten.isFilledNumeral = g.isFilledNumeral := by
    show (g.cls == .numeral && !(g.contours.map _).isEmpty) = _
    rw [List.isEmpty_map]
    rfl
  rw [filled]
  split <;> rfl

/-- Scaling a number that a document holds. -/
theorem asWritten_scaleFrom {center center' : Float} (factor v : Float)
    (same : Number.asWritten center = Number.asWritten center') :
    Number.asWritten (scaleFrom center factor (Number.asWritten v)) =
      Number.asWritten (scaleFrom center' factor v) := by
  unfold scaleFrom
  rw [← Number.asWritten_mul, ← Number.asWritten_sub, same, Number.asWritten_asWritten,
    Number.asWritten_sub, Number.asWritten_mul]

theorem asWritten_middle (low high : Float) :
    Number.asWritten ((Number.asWritten high + Number.asWritten low) / 2) =
      Number.asWritten ((high + low) / 2) := by
  rw [← Number.asWritten_div, Number.asWritten_add, Number.asWritten_div]

/-- Scaling does not see the sign of a zero, but for the sign of zeros. -/
theorem asWritten_rescale_asWritten (factor : Float) (g : Glyph Float) :
    (g.asWritten.rescale factor).asWritten = (g.rescale factor).asWritten := by
  have held : g.asWritten.bounds = g.bounds.map BBox.asWritten := rfl
  by_cases scaled : g.cls.isScaled = true
  · cases boxed : g.bounds with
    | none =>
        rw [boxed] at held
        rw [rescale_of_unboxed factor boxed, rescale_of_unboxed factor held, asWritten_asWritten]
    | some box =>
        rw [boxed] at held
        have x : Number.asWritten box.asWritten.center.1 = Number.asWritten box.center.1 :=
          asWritten_middle box.xMin box.xMax
        have y : Number.asWritten box.asWritten.center.2 = Number.asWritten box.center.2 :=
          asWritten_middle box.yMin box.yMax
        rw [rescale_of_scaled factor boxed scaled, rescale_of_scaled factor held scaled]
        generalize box.asWritten.center = center at x y
        simp only [asWritten, mapPoints, Option.map_some, BBox.asWritten, BBox.mapAxes,
          List.map_map, Function.comp_def, Point.asWritten, Point.mapAxes,
          asWritten_scaleFrom factor _ x, asWritten_scaleFrom factor _ y]
  · have unscaled : g.cls.isScaled = false := by simpa using scaled
    rw [rescale_of_not_scaled factor unscaled,
      rescale_of_not_scaled factor (g := g.asWritten) unscaled, asWritten_asWritten]

end Glyph

/-! ## Edits keep the places of records -/

namespace Edit

/-- Is the template of the edit, if it has one, read from a text? -/
def Parsed : Edit → Prop
  | .boxOutline template => ∃ text notes, BoxTemplate.ofText text = .ok (template, notes)
  | _ => True

/-- A template that was read from a text can be read again. -/
theorem readable_of_ofText {text : String} {template : BoxTemplate} {notes : List Event}
    (read : BoxTemplate.ofText text = .ok (template, notes)) : template.glyph.Readable := by
  unfold BoxTemplate.ofText at read
  cases parsed : BoxTemplate.readGlyph text with
  | error cause => rw [parsed] at read; cases read
  | ok g =>
      rw [parsed] at read
      cases read
      have readable : g.Readable := by
        unfold BoxTemplate.readGlyph at parsed
        split at parsed
        · cases parsed
        · split at parsed
          · exact Glyph.readable_of_ofElement parsed
          · cases parsed
      exact ⟨readable.points, readable.other⟩

/-- Where the outline of the box is replaced, nothing but its glyph is. -/
theorem eq_of_boxOutline {template : BoxTemplate} {f f' : Font Float}
    (result : Edit.apply f (.boxOutline template) = .ok f') :
    f' = { f with glyphs := Font.modifyGlyph boxName (fun _ => template.glyph) f.glyphs } := by
  unfold Edit.apply Font.setBoxOutline? at result
  cases found : f.glyph? boxName with
  | none => rw [found] at result; cases result
  | some g => rw [found] at result; cases result; rfl

/-- The codes that a document has after an edit. -/
def codesAfter : Edit → List String → List String
  | .correctNames, codes => codes.map corrected
  | _, codes => codes

/-- An edit keeps the places of the records, and codes change only with names. -/
theorem stores_of_apply {edit : Edit} {f f' : Font Float} {codes : List String}
    (parsed : edit.Parsed) (stores : f.Stores codes) (result : edit.apply f = .ok f') :
    f'.Stores (edit.codesAfter codes) := by
  cases edit with
  | correctNames =>
      cases result
      obtain ⟨tables, subtable, tables_found, subtable_found, codes_found⟩ := stores.charMap
      obtain ⟨outlines, outlines_found⟩ := stores.outlines
      obtain ⟨table, table_found⟩ := stores.metrics
      refine ⟨⟨tables.mapValues corrected, subtable.mapValues corrected, ?_, ?_, ?_⟩, ?_,
        ⟨outlines.mapValues corrected, ?_⟩, ⟨table.mapValues corrected, ?_⟩, ?_⟩
      · show (f.document.mapValues corrected).child? _ = _
        rw [Element.child?_mapValues, tables_found]
        rfl
      · rw [Element.child?_mapValues, subtable_found]
        rfl
      · have mapped := congrArg (List.map (Option.map corrected)) codes_found
        simpa only [Element.named_mapValues, List.map_map, Function.comp_def,
          Element.attr?_mapValues, codesAfter, Option.map_some] using mapped
      · show (codes.map corrected).length = (f.charMap.map _).length
        rw [List.length_map, List.length_map, stores.size]
      · show (f.document.mapValues corrected).child? _ = _
        rw [Element.child?_mapValues, outlines_found]
        rfl
      · show (f.document.mapValues corrected).child? _ = _
        rw [Element.child?_mapValues, table_found]
        rfl
      · intro g mem
        obtain ⟨source, source_mem, rfl⟩ := List.mem_map.mp mem
        exact (stores.glyphs source source_mem).correctNames
  | boxWidth width =>
      cases result
      exact ⟨stores.charMap, stores.size, stores.outlines, stores.metrics, stores.glyphs⟩
  | boxOutline template =>
      obtain ⟨text, notes, read⟩ := parsed
      obtain rfl := eq_of_boxOutline result
      refine ⟨stores.charMap, stores.size, stores.outlines, stores.metrics, ?_⟩
      intro g mem
      rcases Font.mem_modifyGlyph mem with rfl | kept
      · exact readable_of_ofText read
      · exact stores.glyphs g kept
  | hollowNumerals =>
      cases result
      refine ⟨stores.charMap, stores.size, stores.outlines, stores.metrics, ?_⟩
      intro g mem
      obtain ⟨source, source_mem, rfl⟩ := List.mem_map.mp mem
      exact (stores.glyphs source source_mem).hollow
  | rescale factor =>
      cases result
      refine ⟨stores.charMap, stores.size, stores.outlines, stores.metrics, ?_⟩
      intro g mem
      obtain ⟨source, source_mem, rfl⟩ := List.mem_map.mp mem
      exact (stores.glyphs source source_mem).rescale factor
  | resetWidths width =>
      cases result
      exact ⟨stores.charMap, stores.size, stores.outlines, stores.metrics, stores.glyphs⟩

/-- The codes of the records themselves are never touched. -/
theorem map_code_of_apply {edit : Edit} {f f' : Font Float} (result : edit.apply f = .ok f') :
    f'.charMap.map CharMapEntry.code = f.charMap.map CharMapEntry.code := by
  cases edit with
  | correctNames =>
      cases result
      show (f.charMap.map _).map _ = _
      rw [List.map_map]
      rfl
  | boxWidth width => cases result; rfl
  | boxOutline template =>
      obtain rfl := eq_of_boxOutline result
      rfl
  | hollowNumerals => cases result; rfl
  | rescale factor => cases result; rfl
  | resetWidths width => cases result; rfl

/-! ## Runs -/

/-- What every edit keeps is kept by a run. -/
theorem run_induction {kept : Font Float → Prop} {edits : List Edit} {f g : Font Float}
    (start : kept f)
    (step : ∀ edit ∈ edits, ∀ f f', kept f → edit.apply f = .ok f' → kept f')
    (result : run edits f = .ok g) : kept g := by
  induction edits generalizing f with
  | nil => cases result; exact start
  | cons edit edits ih =>
      unfold run at result
      rw [List.foldlM_cons] at result
      obtain ⟨next, first, rest⟩ := bind_eq_ok.mp result
      have later := fun other mem => step other (List.mem_cons_of_mem _ mem)
      exact ih (step edit List.mem_cons_self f next start first) later rest

theorem run_append (before after : List Edit) (f : Font Float) :
    run (before ++ after) f = run before f >>= run after := by
  unfold run
  exact List.foldlM_append

/-- A run keeps the places of the records, and codes change only with names. -/
theorem stores_of_run {edits : List Edit} {f g : Font Float} {codes : List String}
    (parsed : ∀ edit ∈ edits, edit.Parsed) (stores : f.Stores codes)
    (result : run edits f = .ok g) :
    g.Stores (edits.foldl (fun codes edit => edit.codesAfter codes) codes) := by
  induction edits generalizing f codes with
  | nil => cases result; exact stores
  | cons edit edits ih =>
      unfold run at result
      rw [List.foldlM_cons] at result
      obtain ⟨next, first, rest⟩ := bind_eq_ok.mp result
      have next_stores := stores_of_apply (parsed edit List.mem_cons_self) stores first
      exact ih (fun other mem => parsed other (List.mem_cons_of_mem _ mem)) next_stores rest

/-- A font that was read, and then edited with templates that were read, stores its records. -/
theorem exists_stores_of_run {document : Element} {f g : Font Float} {edits : List Edit}
    (read : Font.ofDocument document = .ok f) (parsed : ∀ edit ∈ edits, edit.Parsed)
    (result : run edits f = .ok g) : ∃ codes, g.Stores codes :=
  ⟨_, stores_of_run parsed (Font.stores_of_ofDocument read) result⟩

end Edit

/-! ## A sample

A box once its name is corrected, with a zero that has a sign and a comment; a letter; and a number.
Between them, and between their tables, there are comments and further tables.
-/

/-- A document with three glyphs. -/
def sampleDocument : Element where
  name := "ttFont"
  attributes := [("ttLibVersion", "4.0")]
  children :=
    [.comment " sample ",
    .element "cmap" []
      [.element "tableVersion" [("version", "0")] [],
      .element "cmap_format_4" [] [.element "map" [("code", "0x41"), ("name", "A")] []],
      .element "cmap_format_12" []
        [.element "map" [("code", "0x40"), ("name", "SW M")] [],
        .comment " letters ",
        .element "map" [("name", "A"), ("code", "0x41")] [],
        .element "map" [("code", "0x42"), ("name", "SW 250")] []]],
    .element "glyf" []
      [.element "TTGlyph"
        [("name", "SW M"), ("xMin", "-0"), ("yMin", "0"), ("xMax", "1"), ("yMax", "1")]
        [.comment " box "],
      .element "TTGlyph"
        [("name", "A"), ("xMin", "0"), ("yMin", "0"), ("xMax", "4"), ("yMax", "8")]
        [.element "contour" [] [.element "pt" [("x", "4"), ("y", "8"), ("on", "1")] []]],
      .text "numbers",
      .element "TTGlyph" [("name", "SW 250")] []],
    .element "head" [] [.element "unitsPerEm" [("value", "1000")] []],
    .element "hmtx" []
      [.element "mtx" [("name", "SW M"), ("width", "0"), ("lsb", "-0")] [],
      .element "mtx" [("name", "A"), ("width", "500"), ("lsb", "0")] [],
      .comment " numbers ",
      .element "mtx" [("name", "SW 250"), ("width", "0"), ("lsb", "0")] []],
    .element "glyf" [] []]

/-- The font that the document holds. -/
def sampleFont : Font Float where
  charMap := [⟨"SW M", "0x40"⟩, ⟨"A", "0x41"⟩, ⟨"SW 250", "0x42"⟩]
  glyphs :=
    [{ name := "SW M", bounds := some ⟨-0.0, 0, 1, 1⟩, other := [.comment " box "] },
    { name := "A", bounds := some ⟨0, 0, 4, 8⟩,
      contours := [[{ x := 4, y := 8, flags := some 1, onCurve := true }]] },
    { name := "SW 250" }]
  metrics := [⟨"SW M", 0, -0.0⟩, ⟨"A", 500, 0⟩, ⟨"SW 250", 0, 0⟩]
  document := sampleDocument

/-- A template for its box. -/
def sampleTemplate : BoxTemplate := BoxTemplate.ofGlyph { name := "M", bounds := some ⟨0, 0, 1, 1⟩ }

theorem ofDocument_sampleDocument : Font.ofDocument sampleDocument = .ok sampleFont := rfl

/-- A text for the template. -/
def sampleTemplateText : String := "<TTGlyph name='M' xMin='0' yMin='0' xMax='1' yMax='1'/>"

theorem ofText_sampleTemplateText :
    BoxTemplate.ofText sampleTemplateText = .ok (sampleTemplate, [.templateRenamed "M"]) := by
  have read : BoxTemplate.readGlyph sampleTemplateText =
      .ok { name := "M", bounds := some ⟨0, 0, 1, 1⟩ } := by decide +kernel
  simp only [BoxTemplate.ofText, read]
  rfl

theorem parsed_sampleTemplate : (Edit.boxOutline sampleTemplate).Parsed :=
  ⟨sampleTemplateText, _, ofText_sampleTemplateText⟩

/-! ## The records survive the document -/

/-- The records survive the document: what a font writes after any edits is read as the same
font, entry by entry, with numbers as documents hold them, and writes the same again.  Only
codes that are taken for names could be lost. -/
theorem records_survive_document {document : Element} {f g : Font Float} {edits : List Edit}
    (read : Font.ofDocument document = .ok f)
    (unmarked : ∀ entry ∈ f.charMap, ¬ "SW ".toList <+: entry.code.toList)
    (parsed : ∀ edit ∈ edits, edit.Parsed) (result : Edit.run edits f = .ok g) :
    ∃ h, Font.ofDocument g.toDocument = .ok h ∧
      h.charMap = g.charMap ∧
      h.glyphs = g.glyphs.map Glyph.asWritten ∧
      h.metrics = g.metrics.map Metric.asWritten ∧
      h.toDocument = g.toDocument := by
  generalize codes_eq : f.charMap.map CharMapEntry.code = codes
  have fixed : codes.map corrected = codes := by
    rw [← codes_eq, List.map_map]
    exact List.map_congr_left fun entry mem => corrected_eq_self (unmarked entry mem)
  have start : f.Stores codes ∧ f.charMap.map CharMapEntry.code = codes :=
    ⟨codes_eq ▸ Font.stores_of_ofDocument read, codes_eq⟩
  have step : ∀ edit ∈ edits, ∀ before after : Font Float,
      before.Stores codes ∧ before.charMap.map CharMapEntry.code = codes →
      edit.apply before = .ok after →
      after.Stores codes ∧ after.charMap.map CharMapEntry.code = codes := by
    rintro edit mem before after ⟨stores, own⟩ applied
    have kept : edit.codesAfter codes = codes := by
      cases edit with
      | correctNames => exact fixed
      | _ => rfl
    have stored := Edit.stores_of_apply (parsed edit mem) stores applied
    rw [kept] at stored
    exact ⟨stored, (Edit.map_code_of_apply applied).trans own⟩
  obtain ⟨stores, own⟩ := Edit.run_induction start step result
  refine ⟨g.asWritten codes, stores.reload, ?_, rfl, rfl, stores.alike_asWritten.document⟩
  rw [← own]
  exact Font.withCodes_map_code g

/-- The sample is read back as what it has become when names were corrected, the box was
replaced and outlines were scaled. -/
theorem records_survive_document_of_sample :
    let edits : List Edit := [.correctNames, .boxOutline sampleTemplate, .rescale 2, .boxWidth 500]
    Font.ofDocument sampleDocument = .ok sampleFont ∧
      (∀ entry ∈ sampleFont.charMap, ¬ "SW ".toList <+: entry.code.toList) ∧
      (∀ edit ∈ edits, edit.Parsed) ∧
      ∃ g h, Edit.run edits sampleFont = .ok g ∧ Font.ofDocument g.toDocument = .ok h ∧
        h.charMap = g.charMap ∧ h.glyphs = g.glyphs.map Glyph.asWritten ∧
        h.toDocument = g.toDocument := by
  intro edits
  have unmarked : ∀ entry ∈ sampleFont.charMap, ¬ "SW ".toList <+: entry.code.toList := by decide
  have parsed : ∀ edit ∈ edits, edit.Parsed := by
    intro edit mem
    simp only [edits, List.mem_cons, List.not_mem_nil, or_false] at mem
    rcases mem with rfl | rfl | rfl | rfl
    · trivial
    · exact parsed_sampleTemplate
    · trivial
    · trivial
  have succeeds : (Edit.run edits sampleFont).isOk = true := by decide +kernel
  cases result : Edit.run edits sampleFont with
  | error cause => rw [result] at succeeds; cases succeeds
  | ok g =>
      obtain ⟨h, read, charMap, glyphs, -, document⟩ :=
        records_survive_document ofDocument_sampleDocument unmarked parsed result
      exact ⟨ofDocument_sampleDocument, unmarked, parsed, g, h, rfl, read, charMap, glyphs,
        document⟩

/-! ## Edits keep fonts alike -/

/-- A change that looks at what documents hold makes like records of like ones. -/
theorem map_map_eq_of_through {α : Type} {hold change : α → α} {xs ys : List α}
    (through : ∀ x, hold (change (hold x)) = hold (change x)) (same : xs.map hold = ys.map hold) :
    (xs.map change).map hold = (ys.map change).map hold := by
  have held : ∀ zs : List α, (zs.map change).map hold =
      (zs.map hold).map fun z => hold (change z) := by
    intro zs
    rw [List.map_map, List.map_map]
    exact List.map_congr_left fun z _ => (through z).symm
  rw [held, held, same]

namespace Font

variable {f g : Font Float}

theorem Alike.lengths (alike : Alike f g) : f.charMap.length = g.charMap.length ∧
    f.glyphs.length = g.glyphs.length ∧ f.metrics.length = g.metrics.length := by
  have names := congrArg List.length alike.names
  have glyphs := congrArg List.length alike.glyphs
  have metrics := congrArg List.length alike.metrics
  simp only [Font.names, List.length_map] at names glyphs metrics
  exact ⟨names, glyphs, metrics⟩

/-- Records that are changed alike, and in their places, make fonts that are alike. -/
theorem Alike.of_records {f' g' : Font Float} (alike : Alike f g)
    (f_document : f'.document = f.document) (g_document : g'.document = g.document)
    (names : f'.names = g'.names)
    (glyphs : f'.glyphs.map Glyph.asWritten = g'.glyphs.map Glyph.asWritten)
    (metrics : f'.metrics.map Metric.asWritten = g'.metrics.map Metric.asWritten)
    (names_length : f'.names.length = f.charMap.length)
    (glyphs_length : f'.glyphs.length = f.glyphs.length)
    (metrics_length : f'.metrics.length = f.metrics.length) : Alike f' g' := by
  obtain ⟨same_names, same_glyphs, same_metrics⟩ := alike.lengths
  have glyphs_length' : (f'.glyphs.map Glyph.toElement).length = f.glyphs.length := by
    rw [List.length_map, glyphs_length]
  have metrics_length' : (f'.metrics.map Metric.toElement).length = f.metrics.length := by
    rw [List.length_map, metrics_length]
  refine ⟨names, glyphs, metrics, ?_⟩
  rw [toDocument_eq_splice, toDocument_eq_splice, ← names, ← map_toElement_eq_of_glyphs glyphs,
    ← map_toElement_eq_of_metrics metrics, f_document, g_document,
    ← splice_toDocument names_length glyphs_length' metrics_length', alike.document,
    splice_toDocument (names_length.trans same_names) (glyphs_length'.trans same_glyphs)
      (metrics_length'.trans same_metrics)]

theorem Alike.correctNames (alike : Alike f g) : Alike f.correctNames g.correctNames := by
  obtain ⟨same_names, same_glyphs, same_metrics⟩ := alike.lengths
  have names : f.correctNames.names = g.correctNames.names := by
    have mapped := congrArg (List.map corrected) alike.names
    simpa [Font.names, Font.correctNames, CharMapEntry.rename, Function.comp_def] using mapped
  have glyphs : f.correctNames.glyphs.map Glyph.asWritten =
      g.correctNames.glyphs.map Glyph.asWritten :=
    map_map_eq_of_through
      (fun x => by rw [Glyph.asWritten_correctNames, Glyph.asWritten_asWritten,
        Glyph.asWritten_correctNames]) alike.glyphs
  have metrics : f.correctNames.metrics.map Metric.asWritten =
      g.correctNames.metrics.map Metric.asWritten :=
    map_map_eq_of_through
      (fun m => congrArg (Metric.rename · (corrected m.name)) m.asWritten_asWritten) alike.metrics
  have f_names : f.correctNames.names.length = f.charMap.length := by
    simp [Font.names, Font.correctNames]
  have f_glyphs : (f.correctNames.glyphs.map Glyph.toElement).length = f.glyphs.length := by
    simp [Font.correctNames]
  have f_metrics : (f.correctNames.metrics.map Metric.toElement).length = f.metrics.length := by
    simp [Font.correctNames]
  refine ⟨names, glyphs, metrics, ?_⟩
  rw [toDocument_eq_splice, toDocument_eq_splice, ← names, ← map_toElement_eq_of_glyphs glyphs,
    ← map_toElement_eq_of_metrics metrics]
  show splice _ _ _ (f.document.mapValues corrected) = splice _ _ _ (g.document.mapValues corrected)
  rw [← splice_mapValues_toDocument corrected f_names f_glyphs f_metrics, alike.document,
    splice_mapValues_toDocument corrected (f_names.trans same_names) (f_glyphs.trans same_glyphs)
      (f_metrics.trans same_metrics)]

theorem Alike.setBoxWidth (alike : Alike f g) (width : Float) :
    Alike (f.setBoxWidth width) (g.setBoxWidth width) := by
  refine alike.of_records rfl rfl alike.names alike.glyphs (map_map_eq_of_through ?_ alike.metrics)
    f.length_names rfl (List.length_map _)
  intro m
  have zero : (m.asWritten.width == 0.0) = (m.width == 0.0) := Number.asWritten_beq_zero m.width
  have cls : m.asWritten.cls = m.cls := rfl
  rw [zero, cls]
  split
  · simp [Metric.asWritten]
  · exact m.asWritten_asWritten

theorem Alike.resetWidths (alike : Alike f g) (width : Float) :
    Alike (f.resetWidths width) (g.resetWidths width) := by
  refine alike.of_records rfl rfl alike.names alike.glyphs (map_map_eq_of_through ?_ alike.metrics)
    f.length_names rfl (List.length_map _)
  intro m
  have cls : m.asWritten.cls = m.cls := rfl
  rw [cls]
  simp [Metric.asWritten]

theorem Alike.hollowNumerals (alike : Alike f g) : Alike f.hollowNumerals g.hollowNumerals := by
  refine alike.of_records rfl rfl alike.names (map_map_eq_of_through ?_ alike.glyphs) alike.metrics
    f.length_names (List.length_map _) rfl
  intro x
  rw [Glyph.asWritten_hollow, Glyph.asWritten_hollow, Glyph.asWritten_asWritten]

theorem Alike.rescale (alike : Alike f g) (factor : Float) :
    Alike (f.rescale factor) (g.rescale factor) :=
  alike.of_records rfl rfl alike.names
    (map_map_eq_of_through (Glyph.asWritten_rescale_asWritten factor) alike.glyphs) alike.metrics
    f.length_names (List.length_map _) rfl

theorem Alike.glyph?_isSome (alike : Alike f g) (name : String) :
    (f.glyph? name).isSome = (g.glyph? name).isSome := by
  have held : ∀ h : Font Float,
      (h.glyph? name).isSome = ((h.glyphs.map Glyph.asWritten).find? (·.name == name)).isSome := by
    intro h
    rw [List.find?_map, Option.isSome_map]
    rfl
  rw [held, held, alike.glyphs]

/-- Do two attempts at an edit fail in the same way, or make fonts that are alike? -/
def AlikeResults : Except EditError (Font Float) → Except EditError (Font Float) → Prop
  | .ok f, .ok g => Alike f g
  | .error cause, .error cause' => cause = cause'
  | _, _ => False

theorem Alike.apply (alike : Alike f g) (edit : Edit) :
    AlikeResults (edit.apply f) (edit.apply g) := by
  cases edit with
  | correctNames => exact alike.correctNames
  | boxWidth width => exact alike.setBoxWidth width
  | boxOutline template =>
      have some_iff := alike.glyph?_isSome boxName
      unfold Edit.apply setBoxOutline?
      cases found : f.glyph? boxName with
      | none =>
          rw [found] at some_iff
          have missing : g.glyph? boxName = none := Option.isNone_iff_eq_none.mp (by
            simpa using some_iff.symm)
          rw [missing]
          rfl
      | some box =>
          rw [found] at some_iff
          obtain ⟨box', found'⟩ := Option.isSome_iff_exists.mp some_iff.symm
          rw [found']
          refine alike.of_records rfl rfl alike.names ?_ alike.metrics f.length_names
            (length_modifyGlyph _ _ _) rfl
          rw [map_asWritten_modifyGlyph, map_asWritten_modifyGlyph, alike.glyphs]
  | hollowNumerals => exact alike.hollowNumerals
  | rescale factor => exact alike.rescale factor
  | resetWidths width => exact alike.resetWidths width

/-- Runs keep fonts alike. -/
theorem Alike.run (alike : Alike f g) (edits : List Edit) :
    AlikeResults (Edit.run edits f) (Edit.run edits g) := by
  induction edits generalizing f g with
  | nil => exact alike
  | cons edit edits ih =>
      have step := alike.apply edit
      unfold Edit.run
      rw [List.foldlM_cons, List.foldlM_cons]
      cases first : edit.apply f with
      | error cause =>
          cases second : edit.apply g with
          | error cause' => rw [first, second] at step; exact step
          | ok g' => rw [first, second] at step; exact step.elim
      | ok f' =>
          cases second : edit.apply g with
          | error cause' => rw [first, second] at step; exact step.elim
          | ok g' => rw [first, second] at step; exact ih step

/-- Alike results are written the same. -/
theorem AlikeResults.map_toDocument {x y : Except EditError (Font Float)}
    (alike : AlikeResults x y) :
    x.map toDocument = y.map toDocument := by
  cases x with
  | error cause => cases y with
    | error cause' => exact congrArg Except.error alike
    | ok g => exact alike.elim
  | ok f => cases y with
    | error cause' => exact alike.elim
    | ok g => exact congrArg Except.ok (Alike.document alike)

end Font

/-- Why a run that is saved and read again in between can end without a font. -/
inductive CheckpointError where
  | edit (cause : EditError)
  | reload (fault : ReadError)
  deriving DecidableEq, Repr

/-- Apply edits, write the font, read it again and apply more edits. -/
def Edit.runCheckpointed (before after : List Edit) (f : Font Float) :
    Except CheckpointError (Font Float) :=
  match run before f with
  | .error cause => .error (.edit cause)
  | .ok saved =>
      match saved.reload with
      | .error fault => .error (.reload fault)
      | .ok reloaded => (run after reloaded).mapError .edit

/-- Checkpoints are transparent: writing a font between two edits and going on with what is
read back fails where the run without it fails and with the same error, never for the sake of
reading, and otherwise leads to the same document. -/
theorem checkpoint_transparent {document : Element} {f : Font Float} {before after : List Edit}
    (read : Font.ofDocument document = .ok f) (parsed : ∀ edit ∈ before, edit.Parsed) :
    (Edit.runCheckpointed before after f).map Font.toDocument =
      ((Edit.run (before ++ after) f).map Font.toDocument).mapError .edit := by
  rw [Edit.run_append, Edit.runCheckpointed]
  cases result : Edit.run before f with
  | error cause => rfl
  | ok saved =>
      obtain ⟨codes, stores⟩ := Edit.exists_stores_of_run read parsed result
      have same := (stores.alike_asWritten.run after).map_toDocument
      simp only [stores.reload]
      show ((Edit.run after (saved.asWritten codes)).mapError _).map _ =
        ((Edit.run after saved).map _).mapError _
      rw [← same]
      cases Edit.run after (saved.asWritten codes) <;> rfl

/-- The sample is saved and read again between correcting its names and replacing its box. -/
theorem checkpoint_transparent_of_sample :
    Font.ofDocument sampleDocument = .ok sampleFont ∧
      (∀ edit ∈ [Edit.correctNames], edit.Parsed) ∧
      (Edit.runCheckpointed [.correctNames] [.boxOutline sampleTemplate, .rescale 2]
          sampleFont).map Font.toDocument =
        ((Edit.run ([.correctNames] ++ [.boxOutline sampleTemplate, .rescale 2])
          sampleFont).map Font.toDocument).mapError .edit := by
  have parsed : ∀ edit ∈ [Edit.correctNames], edit.Parsed := by
    intro edit mem
    rw [List.mem_singleton.mp mem]
    trivial
  exact ⟨ofDocument_sampleDocument, parsed,
    checkpoint_transparent ofDocument_sampleDocument parsed⟩

end SymbolFont
