/-
# Classes that are stored

A record may keep the class of its name beside the name, so that it is told only once.  Then
everything that makes a record, renames it or puts another in its place has to see to its class,
and whatever goes by classes goes by those that are stored.  Here this is done for fonts, and
shown to come to the same: reading and every step make of fonts with stored classes what they
make of plain ones, each record with the class of its name.  So no class is ever stale.

Apart from edits, the steps are renaming single records.
-/

import SymbolFont.Proofs.Edit.Reload
import SymbolFont.Proofs.Font.Lookup

namespace SymbolFont

open Markup

/-! ## Records with names -/

/-- Records that have a name which can be changed. -/
class Named (ρ : Type) where
  name : ρ → String
  rename : ρ → String → ρ
  name_rename : ∀ record new, name (rename record new) = new
  rename_name : ∀ record, rename record (name record) = record

instance : Named CharMapEntry where
  name := CharMapEntry.name
  rename := CharMapEntry.rename
  name_rename _ _ := rfl
  rename_name _ := rfl

instance : Named (Glyph Float) where
  name := Glyph.name
  rename := Glyph.rename
  name_rename _ _ := rfl
  rename_name _ := rfl

instance : Named (Metric Float) where
  name := Metric.name
  rename := Metric.rename
  name_rename _ _ := rfl
  rename_name _ := rfl

/-- A record with a class that is stored beside it. -/
structure Classed (ρ : Type) where
  record : ρ
  cls : GlyphClass
  deriving BEq, Repr

namespace Classed

variable {ρ : Type} [Named ρ]

/-- Is the stored class that of the name? -/
def Fresh (c : Classed ρ) : Prop := c.cls = GlyphClass.of (Named.name c.record)

/-- Make a record with the class of its name. -/
def make (record : ρ) : Classed ρ := ⟨record, GlyphClass.of (Named.name record)⟩

/-- Rename a record, and classify it anew. -/
def rename (name : String) (c : Classed ρ) : Classed ρ :=
  ⟨Named.rename c.record name, GlyphClass.of name⟩

/-- Change a record in other things than its name; the class is left as it is. -/
def update {ρ : Type} (change : ρ → ρ) (c : Classed ρ) : Classed ρ :=
  { c with record := change c.record }

/-- Correct the name of a record; a correct one is not touched. -/
def correctName (c : Classed ρ) : Classed ρ :=
  match corrected? (Named.name c.record) with
  | some fixed => c.rename fixed
  | none => c

/-- Read a record. -/
def read (ofElement : Element → Except ReadError ρ) (e : Element) :
    Except ReadError (Classed ρ) :=
  make <$> ofElement e

theorem fresh_make (record : ρ) : (make record).Fresh := rfl

theorem rename_make (name : String) (record : ρ) :
    (make record).rename name = make (Named.rename record name) := by
  simp only [rename, make, Named.name_rename]

theorem update_make {change : ρ → ρ} {record : ρ}
    (named : Named.name (change record) = Named.name record) :
    (make record).update change = make (change record) := by
  simp only [update, make, named]

theorem ite_update_make {change : ρ → ρ} {record : ρ} (hit : Prop) [Decidable hit]
    (named : Named.name (change record) = Named.name record) :
    (if hit then (make record).update change else make record) =
      make (if hit then change record else record) := by
  split
  · exact update_make named
  · rfl

theorem correctName_make (record : ρ) :
    (make record).correctName = make (Named.rename record (corrected (Named.name record))) := by
  unfold correctName corrected
  show (match corrected? (Named.name record) with | some fixed => _ | none => _) = _
  cases corrected? (Named.name record) with
  | some fixed => exact rename_make fixed record
  | none =>
      show make record = make (Named.rename record (Named.name record))
      rw [Named.rename_name]

/-- Reading records and storing their classes may be done one after the other. -/
theorem mapM_read (ofElement : Element → Except ReadError ρ) (es : List Element) :
    es.mapM (read ofElement) = List.map make <$> es.mapM ofElement := by
  induction es with
  | nil => rfl
  | cons e es ih =>
      simp only [List.mapM_cons, ih, read, bind_map_left, map_bind, map_pure, List.map_cons]

theorem map_make_map {change : ρ → ρ} {changed : Classed ρ → Classed ρ} {records : List ρ}
    (each : ∀ record, changed (make record) = make (change record)) :
    (records.map make).map changed = (records.map change).map make := by
  rw [List.map_map, List.map_map]
  exact List.map_congr_left fun record _ => each record

theorem map_make_modify {change : ρ → ρ} {changed : Classed ρ → Classed ρ}
    (each : ∀ record, changed (make record) = make (change record)) (i : Nat) (records : List ρ) :
    (records.map make).modify i changed = (records.modify i change).map make := by
  induction records generalizing i with
  | nil => cases i <;> rfl
  | cons record records ih =>
      cases i with
      | zero => simp [each]
      | succ i => simp [ih]

end Classed

/-! ## Templates -/

namespace Classed

/-- Read a template for the box; one of another name is renamed. -/
def template (text : String) : Except TemplateError (Classed (Glyph Float)) :=
  match BoxTemplate.readGlyph text with
  | .ok g => .ok (if g.name = boxName then make g else (make g).rename boxName)
  | .error cause => .error (.invalid cause)

theorem template_eq (text : String) :
    template text = (fun read => make read.1.glyph) <$> BoxTemplate.ofText text := by
  unfold template BoxTemplate.ofText
  cases BoxTemplate.readGlyph text with
  | error cause => rfl
  | ok g =>
      show Except.ok _ = Except.ok (make (Named.rename g boxName))
      by_cases named : g.name = boxName
      · rw [if_pos named, ← named]
        exact congrArg (Except.ok ∘ make) (Named.rename_name g).symm
      · rw [if_neg named, rename_make]

/-- Put a glyph in the place of the first of the name, if there is one. -/
def replaceFirst (name : String) (replacement : Classed (Glyph Float)) :
    List (Classed (Glyph Float)) → Option (List (Classed (Glyph Float)))
  | [] => none
  | c :: cs =>
      if c.record.name = name then some (replacement :: cs)
      else (c :: ·) <$> replaceFirst name replacement cs

theorem replaceFirst_make (name : String) (replacement : Glyph Float)
    (glyphs : List (Glyph Float)) :
    replaceFirst name (make replacement) (glyphs.map make) =
      (glyphs.find? (·.name == name)).map fun _ =>
        (Font.modifyGlyph name (fun _ => replacement) glyphs).map make := by
  induction glyphs with
  | nil => rfl
  | cons g glyphs ih =>
      rw [List.map_cons, replaceFirst, Font.modifyGlyph, List.find?_cons]
      show (if g.name = name then _ else _) = _
      by_cases hit : g.name = name
      · rw [if_pos hit, if_pos hit, beq_iff_eq.mpr hit]
        rfl
      · rw [if_neg hit, if_neg hit, beq_eq_false_iff_ne.mpr hit, ih]
        cases glyphs.find? (·.name == name) <;> rfl

end Classed

/-! ## Fonts -/

/-- A font whose records have stored classes. -/
structure ClassedFont where
  charMap : List (Classed CharMapEntry)
  glyphs : List (Classed (Glyph Float))
  metrics : List (Classed (Metric Float))
  document : Element
  deriving BEq, Repr

/-- A step is an edit, with its template for the box as a text, or renames one record. -/
inductive Step where
  | correctNames
  | boxWidth (width : Float)
  | boxOutline (template : String)
  | hollowNumerals
  | rescale (factor : Float)
  | resetWidths (boxWidth : Float)
  | renameEntry (i : Nat) (name : String)
  | renameGlyph (i : Nat) (name : String)
  | renameMetric (i : Nat) (name : String)

namespace Step

/-- Read a template and replace the outline of the box glyph. -/
def replaceBox (text : String) (f : Font Float) : Except EditError (Font Float) :=
  match BoxTemplate.ofText text with
  | .ok (template, _) => Edit.apply f (.boxOutline template)
  | .error cause => .error (.template cause)

/-- The font after a step. -/
def apply (f : Font Float) : Step → Except EditError (Font Float)
  | .correctNames => Edit.apply f .correctNames
  | .boxWidth width => Edit.apply f (.boxWidth width)
  | .boxOutline text => replaceBox text f
  | .hollowNumerals => Edit.apply f .hollowNumerals
  | .rescale factor => Edit.apply f (.rescale factor)
  | .resetWidths width => Edit.apply f (.resetWidths width)
  | .renameEntry i name => .ok { f with charMap := f.charMap.modify i (·.rename name) }
  | .renameGlyph i name => .ok { f with glyphs := f.glyphs.modify i (·.rename name) }
  | .renameMetric i name => .ok { f with metrics := f.metrics.modify i (·.rename name) }

/-- Take steps one after the other. -/
def run (steps : List Step) (f : Font Float) : Except EditError (Font Float) :=
  steps.foldlM apply f

end Step

namespace ClassedFont

/-- Are all stored classes those of the names? -/
structure Fresh (f : ClassedFont) : Prop where
  charMap : ∀ entry ∈ f.charMap, entry.Fresh
  glyphs : ∀ g ∈ f.glyphs, g.Fresh
  metrics : ∀ m ∈ f.metrics, m.Fresh

/-- The font without the stored classes. -/
def forget (f : ClassedFont) : Font Float where
  charMap := f.charMap.map Classed.record
  glyphs := f.glyphs.map Classed.record
  metrics := f.metrics.map Classed.record
  document := f.document

/-- The font with the class of each name stored. -/
def ofFont (f : Font Float) : ClassedFont where
  charMap := f.charMap.map Classed.make
  glyphs := f.glyphs.map Classed.make
  metrics := f.metrics.map Classed.make
  document := f.document

/-- Read the records of a document. -/
def ofDocument (document : Element) : Except ReadError ClassedFont := do
  let tables ← document.requiredChild Font.charMapName
  let subtable ← tables.requiredChild Font.subtableName
  let charMap ← (subtable.named Font.entryName).mapM (Classed.read CharMapEntry.ofElement)
  let outlines ← document.requiredChild Font.outlinesName
  let glyphs ← (outlines.named Glyph.elementName).mapM (Classed.read Glyph.ofElement)
  let table ← document.requiredChild Font.metricsName
  let metrics ← (table.named Metric.elementName).mapM (Classed.read Metric.ofElement)
  return { charMap, glyphs, metrics, document }

/-- Correct all names. -/
def correctNames (f : ClassedFont) : ClassedFont where
  charMap := f.charMap.map Classed.correctName
  glyphs := f.glyphs.map fun g => g.correctName.update fun record =>
    { record with other := Node.mapValuesList corrected record.other }
  metrics := f.metrics.map Classed.correctName
  document := f.document.mapValues corrected

/-- Give the box glyph a width if it has none. -/
def setBoxWidth (width : Float) (f : ClassedFont) : ClassedFont :=
  { f with
    metrics := f.metrics.map fun m =>
      if m.cls = .box ∧ m.record.width == 0.0 then m.update ({ · with width }) else m }

/-- Read a template and replace the outline of the box glyph. -/
def replaceBox (text : String) (f : ClassedFont) : Except EditError ClassedFont :=
  match Classed.template text with
  | .error cause => .error (.template cause)
  | .ok template =>
      match Classed.replaceFirst boxName template f.glyphs with
      | some glyphs => .ok { f with glyphs }
      | none => .error (.boxGlyphMissing boxName)

/-- Take the contours out of all number glyphs. -/
def hollowNumerals (f : ClassedFont) : ClassedFont :=
  { f with
    glyphs := f.glyphs.map fun g =>
      if g.cls == .numeral && !g.record.contours.isEmpty
      then g.update ({ · with contours := [] }) else g }

/-- Scale the outlines of all symbols. -/
def rescale (factor : Float) (f : ClassedFont) : ClassedFont :=
  { f with
    glyphs := f.glyphs.map fun g =>
      if g.cls.isScaled then g.update (Glyph.scaleOutline factor) else g }

/-- Give the box glyph its width and every other glyph none. -/
def resetWidths (width : Float) (f : ClassedFont) : ClassedFont :=
  { f with
    metrics := f.metrics.map fun m =>
      m.update ({ · with width := if m.cls = .box then width else 0.0 }) }

/-- The font after a step, which goes by the stored classes. -/
def apply (f : ClassedFont) : Step → Except EditError ClassedFont
  | .correctNames => .ok f.correctNames
  | .boxWidth width => .ok (f.setBoxWidth width)
  | .boxOutline text => f.replaceBox text
  | .hollowNumerals => .ok f.hollowNumerals
  | .rescale factor => .ok (f.rescale factor)
  | .resetWidths width => .ok (f.resetWidths width)
  | .renameEntry i name => .ok { f with charMap := f.charMap.modify i (Classed.rename name) }
  | .renameGlyph i name => .ok { f with glyphs := f.glyphs.modify i (Classed.rename name) }
  | .renameMetric i name => .ok { f with metrics := f.metrics.modify i (Classed.rename name) }

/-- Take steps one after the other. -/
def run (steps : List Step) (f : ClassedFont) : Except EditError ClassedFont :=
  steps.foldlM apply f

/-! ## Stored classes are those of the names -/

theorem fresh_ofFont (f : Font Float) : (ofFont f).Fresh := by
  have fresh {ρ : Type} [Named ρ] (records : List ρ) :
      ∀ c ∈ records.map Classed.make, c.Fresh := by
    intro c mem
    obtain ⟨record, -, rfl⟩ := List.mem_map.mp mem
    exact Classed.fresh_make record
  exact ⟨fresh f.charMap, fresh f.glyphs, fresh f.metrics⟩

@[simp] theorem forget_ofFont (f : Font Float) : (ofFont f).forget = f := by
  have forgotten {ρ : Type} [Named ρ] (records : List ρ) :
      (records.map Classed.make).map Classed.record = records := by
    rw [List.map_map]
    exact List.map_id records
  simp only [forget, ofFont, forgotten]

/-- Reading stores the class of each name. -/
theorem ofDocument_eq (document : Element) :
    ofDocument document = ofFont <$> Font.ofDocument document := by
  simp only [ofDocument, Font.ofDocument, Font.readCharMap, Font.readGlyphs, Font.readMetrics,
    Classed.mapM_read, bind_assoc, bind_map_left, map_bind, map_pure]
  rfl

theorem correctNames_ofFont (f : Font Float) :
    (ofFont f).correctNames = ofFont f.correctNames := by
  have charMap : (f.charMap.map Classed.make).map Classed.correctName =
      f.correctNames.charMap.map Classed.make :=
    Classed.map_make_map Classed.correctName_make
  have metrics : (f.metrics.map Classed.make).map Classed.correctName =
      f.correctNames.metrics.map Classed.make :=
    Classed.map_make_map Classed.correctName_make
  have glyphs : (f.glyphs.map Classed.make).map (fun g => g.correctName.update fun record =>
      { record with other := Node.mapValuesList corrected record.other }) =
        f.correctNames.glyphs.map Classed.make := by
    apply Classed.map_make_map
    intro g
    rw [Classed.correctName_make]
    exact Classed.update_make rfl
  simp only [correctNames, ofFont, charMap, metrics, glyphs]
  rfl

/-- Changes of glyphs alone. -/
theorem ofFont_map_glyphs {f : Font Float} {change : Glyph Float → Glyph Float}
    {changed : Classed (Glyph Float) → Classed (Glyph Float)}
    (each : ∀ g, changed (Classed.make g) = Classed.make (change g)) :
    { ofFont f with glyphs := (ofFont f).glyphs.map changed } =
      ofFont { f with glyphs := f.glyphs.map change } :=
  congrArg (fun glyphs => { ofFont f with glyphs }) (Classed.map_make_map each)

/-- Changes of metrics alone. -/
theorem ofFont_map_metrics {f : Font Float} {change : Metric Float → Metric Float}
    {changed : Classed (Metric Float) → Classed (Metric Float)}
    (each : ∀ m, changed (Classed.make m) = Classed.make (change m)) :
    { ofFont f with metrics := (ofFont f).metrics.map changed } =
      ofFont { f with metrics := f.metrics.map change } :=
  congrArg (fun metrics => { ofFont f with metrics }) (Classed.map_make_map each)

theorem setBoxWidth_ofFont (width : Float) (f : Font Float) :
    (ofFont f).setBoxWidth width = ofFont (f.setBoxWidth width) :=
  ofFont_map_metrics fun _ => Classed.ite_update_make _ rfl

theorem hollowNumerals_ofFont (f : Font Float) :
    (ofFont f).hollowNumerals = ofFont f.hollowNumerals :=
  ofFont_map_glyphs fun _ => Classed.ite_update_make _ rfl

theorem rescale_ofFont (factor : Float) (f : Font Float) :
    (ofFont f).rescale factor = ofFont (f.rescale factor) := by
  apply ofFont_map_glyphs
  intro g
  rw [Glyph.rescale_eq]
  exact Classed.ite_update_make _ (Glyph.name_scaleOutline factor g)

theorem resetWidths_ofFont (width : Float) (f : Font Float) :
    (ofFont f).resetWidths width = ofFont (f.resetWidths width) :=
  ofFont_map_metrics fun _ => Classed.update_make rfl

theorem replaceBox_ofFont (text : String) (f : Font Float) :
    (ofFont f).replaceBox text = ofFont <$> Step.replaceBox text f := by
  unfold replaceBox Step.replaceBox
  rw [Classed.template_eq]
  cases BoxTemplate.ofText text with
  | error cause => rfl
  | ok read =>
      show (match Classed.replaceFirst boxName (Classed.make read.1.glyph)
          (f.glyphs.map Classed.make) with
        | some glyphs => _
        | none => _) = ofFont <$> Edit.apply f (.boxOutline read.1)
      rw [Classed.replaceFirst_make, Edit.apply, Font.setBoxOutline?, Font.glyph?]
      cases f.glyphs.find? (·.name == boxName) <;> rfl

/-- A step makes of a font with stored classes what it makes of the plain one, with each class
stored anew. -/
theorem apply_ofFont (f : Font Float) (step : Step) :
    (ofFont f).apply step = ofFont <$> step.apply f := by
  cases step with
  | correctNames => exact congrArg Except.ok (correctNames_ofFont f)
  | boxWidth width => exact congrArg Except.ok (setBoxWidth_ofFont width f)
  | boxOutline text => exact replaceBox_ofFont text f
  | hollowNumerals => exact congrArg Except.ok (hollowNumerals_ofFont f)
  | rescale factor => exact congrArg Except.ok (rescale_ofFont factor f)
  | resetWidths width => exact congrArg Except.ok (resetWidths_ofFont width f)
  | renameEntry i name =>
      exact congrArg (fun charMap => Except.ok { ofFont f with charMap })
        (Classed.map_make_modify (Classed.rename_make name) i f.charMap)
  | renameGlyph i name =>
      exact congrArg (fun glyphs => Except.ok { ofFont f with glyphs })
        (Classed.map_make_modify (Classed.rename_make name) i f.glyphs)
  | renameMetric i name =>
      exact congrArg (fun metrics => Except.ok { ofFont f with metrics })
        (Classed.map_make_modify (Classed.rename_make name) i f.metrics)

/-- So do any steps. -/
theorem run_ofFont (steps : List Step) (f : Font Float) :
    run steps (ofFont f) = ofFont <$> Step.run steps f := by
  induction steps generalizing f with
  | nil => rfl
  | cons step steps ih =>
      -- After the first step the font is again one with its classes stored anew.
      rw [run, Step.run, List.foldlM_cons, List.foldlM_cons, apply_ofFont, bind_map_left, map_bind]
      congr 1
      funext next
      exact ih next

end ClassedFont

/-! ## Numbers of records -/

namespace Font

/-- Does a font have the codes of another, and as many glyphs and metrics? -/
structure SameSize (f g : Font Float) : Prop where
  codes : f.charMap.map CharMapEntry.code = g.charMap.map CharMapEntry.code
  glyphs : f.glyphs.length = g.glyphs.length
  metrics : f.metrics.length = g.metrics.length

theorem Fits.of_sameSize {document : Element} {f g : Font Float} (fits : f.Fits document)
    (same : g.SameSize f) : g.Fits document := by
  obtain ⟨charMap, outlines, metrics⟩ := fits
  rw [← same.codes] at charMap
  rw [← same.glyphs] at outlines
  rw [← same.metrics] at metrics
  exact ⟨charMap, outlines, metrics⟩

end Font

/-- What a change of an item leaves alone is the same of all items. -/
theorem map_modify_of_kept {α β : Type} {view : α → β} {change : α → α}
    (kept : ∀ item, view (change item) = view item) (i : Nat) (items : List α) :
    (items.modify i change).map view = items.map view := by
  induction items generalizing i with
  | nil => cases i <;> rfl
  | cons item items ih =>
      cases i with
      | zero => simp [kept]
      | succ i => simp [ih]

namespace Step

/-- Steps change neither codes nor how many records there are. -/
theorem sameSize_of_apply {step : Step} {f f' : Font Float} (result : step.apply f = .ok f') :
    f'.SameSize f := by
  cases step with
  | correctNames =>
      have applied : Edit.apply f .correctNames = .ok f' := result
      have codes := Edit.map_code_of_apply applied
      cases result
      exact ⟨codes, List.length_map _, List.length_map _⟩
  | boxWidth width => cases result; exact ⟨rfl, rfl, List.length_map _⟩
  | boxOutline text =>
      change replaceBox text f = .ok f' at result
      unfold replaceBox at result
      split at result
      · obtain rfl := Edit.eq_of_boxOutline result
        exact ⟨rfl, Font.length_modifyGlyph _ _ _, rfl⟩
      · cases result
  | hollowNumerals => cases result; exact ⟨rfl, List.length_map _, rfl⟩
  | rescale factor => cases result; exact ⟨rfl, List.length_map _, rfl⟩
  | resetWidths width => cases result; exact ⟨rfl, rfl, List.length_map _⟩
  | renameEntry i name =>
      cases result
      refine ⟨?_, rfl, rfl⟩
      apply map_modify_of_kept
      intro entry
      rfl
  | renameGlyph i name => cases result; exact ⟨rfl, List.length_modify _ _ _, rfl⟩
  | renameMetric i name => cases result; exact ⟨rfl, rfl, List.length_modify _ _ _⟩

theorem sameSize_of_run {steps : List Step} {f f' : Font Float} (result : run steps f = .ok f') :
    f'.SameSize f := by
  induction steps generalizing f with
  | nil => cases result; exact ⟨rfl, rfl, rfl⟩
  | cons step steps ih =>
      unfold run at result
      rw [List.foldlM_cons] at result
      obtain ⟨next, first, rest⟩ := bind_eq_ok.mp result
      have now := sameSize_of_apply first
      have later := ih rest
      exact ⟨later.codes.trans now.codes, later.glyphs.trans now.glyphs,
        later.metrics.trans now.metrics⟩

end Step

/-! ## Stored classes are never stale -/

/-- Stored classes are never stale.  Whatever steps are taken from the font that a document
holds, every record has the class of the name that it has by then, there are as many records as
the document has elements, and the codes are those of the document; and without the classes it
is the font that the same steps make without any. -/
theorem stored_classes_never_stale {document : Element} {before after : ClassedFont}
    {steps : List Step} (read : ClassedFont.ofDocument document = .ok before)
    (result : ClassedFont.run steps before = .ok after) :
    after.Fresh ∧ after.forget.Fits document ∧ Font.ofDocument document = .ok before.forget ∧
      Step.run steps before.forget = .ok after.forget := by
  rw [ClassedFont.ofDocument_eq] at read
  obtain ⟨f, plain_read, rfl⟩ := exists_of_map_eq_ok read
  rw [ClassedFont.run_ofFont] at result
  obtain ⟨g, plain_result, rfl⟩ := exists_of_map_eq_ok result
  rw [ClassedFont.forget_ofFont, ClassedFont.forget_ofFont]
  have fits := (Font.fits_of_ofDocument plain_read).of_sameSize (Step.sameSize_of_run plain_result)
  exact ⟨ClassedFont.fresh_ofFont g, fits, plain_read, plain_result⟩

/-- The glyphs of the sample are corrected, one of them is replaced and renamed, and an entry is
renamed in another way. -/
theorem stored_classes_never_stale_of_sample :
    let steps : List Step :=
      [.correctNames, .boxOutline sampleTemplateText, .renameGlyph 0 "SW5", .rescale 2,
        .renameEntry 0 "SWA"]
    ∃ before after, ClassedFont.ofDocument sampleDocument = .ok before ∧
      ClassedFont.run steps before = .ok after ∧
      after.charMap.map Classed.cls = [.extension, .base, .numeral] ∧
      after.glyphs.map Classed.cls = [.numeral, .base, .numeral] ∧
      after.metrics.map Classed.cls = [.box, .base, .numeral] ∧
      after.Fresh ∧ after.forget.Fits sampleDocument := by
  intro steps
  have read : ClassedFont.ofDocument sampleDocument = .ok (.ofFont sampleFont) := by
    rw [ClassedFont.ofDocument_eq, ofDocument_sampleDocument]
    rfl
  have classes : (ClassedFont.run steps (.ofFont sampleFont)).map (fun f =>
      (f.charMap.map Classed.cls, f.glyphs.map Classed.cls, f.metrics.map Classed.cls)) =
      .ok ([.extension, .base, .numeral], [.numeral, .base, .numeral],
        [.box, .base, .numeral]) := by
    decide +kernel
  cases result : ClassedFont.run steps (.ofFont sampleFont) with
  | error fault => rw [result] at classes; cases classes
  | ok after =>
      obtain ⟨fresh, fits, -⟩ := stored_classes_never_stale read result
      rw [result] at classes
      simp only [Except.map, Except.ok.injEq, Prod.mk.injEq] at classes
      obtain ⟨charMap, glyphs, metrics⟩ := classes
      exact ⟨_, after, read, result, charMap, glyphs, metrics, fresh, fits⟩

end SymbolFont
