/-
# What a document needs to be read, and what is missing first

Reading a font makes one check after the other on elements of its document: that a child is there,
that an attribute is there, that it is a number.  The checks are listed here in the order of the
document, so that reading is told without the steps that it takes: it succeeds if all checks are
met, which a well-formed document does, and reports the first that is not.
-/

import SymbolFont.Proofs.Font.Reload

namespace SymbolFont

open Markup

/-! ## Checks -/

/-- Is there an attribute of the name? -/
def Markup.Element.Has (e : Element) (key : String) : Prop := ∃ value, e.attr? key = some value

/-- Is there an attribute of the name, and is its value without blanks around it a number? -/
def Markup.Element.HasNumber (e : Element) (key : String) : Prop :=
  ∃ raw value, e.attr? key = some raw ∧ Number.readChars (Text.trim raw.toList) = some value

/-- A check of one element. -/
inductive Check where
  /-- It has a child element of the name. -/
  | child (e : Element) (name : String)
  /-- It has the attribute. -/
  | attribute (e : Element) (key : String)
  /-- It has the attribute, which is a number. -/
  | number (e : Element) (key : String)

namespace Check

/-- What is wrong if the check is not met. -/
def defect? : Check → Option ReadError
  | .child e name =>
      match e.child? name with
      | some _ => none
      | none => some (.missingElement name)
  | .attribute e key =>
      match e.attr? key with
      | some _ => none
      | none => some (.missingAttribute e.name key)
  | .number e key =>
      match e.attr? key with
      | some raw =>
          match Number.readChars (Text.trim raw.toList) with
          | some _ => none
          | none => some (.invalidNumber e.name key raw)
      | none => some (.missingAttribute e.name key)

/-- The first thing wrong among checks made one after the other. -/
def firstDefect? (checks : List Check) : Option ReadError := checks.findSome? defect?

end Check

open Check

/-- The checks on a child of the name, if there is one, behind the check that there is. -/
def Check.below (e : Element) (name : String) (checks : Element → List Check) : List Check :=
  .child e name :: (e.child? name).toList.flatMap checks

/-- The checks on an entry of the character map. -/
def CharMapEntry.checks (e : Element) : List Check := [.attribute e "name", .attribute e "code"]

/-- The checks on a point: its flags are looked at first, but need not be there. -/
def Point.checks (e : Element) : List Check :=
  (if (e.attr? "on").isSome then [.number e "on"] else []) ++ [.number e "x", .number e "y"]

/-- The checks on a contour. -/
def Contour.checks (e : Element) : List Check := (e.named "pt").flatMap Point.checks

/-- The checks on a bounding box. -/
def BBox.checks (e : Element) : List Check := ["xMin", "yMin", "xMax", "yMax"].map (.number e)

/-- The checks on a glyph: there is a bounding box if there is its first bound. -/
def Glyph.checks (e : Element) : List Check :=
  .attribute e "name" ::
    ((if (e.attr? "xMin").isSome then BBox.checks e else []) ++
      (e.named contourName).flatMap Contour.checks)

/-- The checks on metrics. -/
def Metric.checks (e : Element) : List Check :=
  [.attribute e "name", .number e "width", .number e "lsb"]

namespace Font

/-- The checks on the character map. -/
def charMapChecks (document : Element) : List Check :=
  below document charMapName (below · subtableName fun subtable =>
    (subtable.named entryName).flatMap CharMapEntry.checks)

/-- The checks on the glyphs. -/
def glyphChecks (document : Element) : List Check :=
  below document outlinesName fun outlines =>
    (outlines.named Glyph.elementName).flatMap Glyph.checks

/-- The checks on the metrics. -/
def metricChecks (document : Element) : List Check :=
  below document metricsName fun table =>
    (table.named Metric.elementName).flatMap Metric.checks

/-- All checks on a document. -/
def checks (document : Element) : List Check :=
  charMapChecks document ++ (glyphChecks document ++ metricChecks document)

end Font

/-! ## Reading reports the first defect -/

/-- The error of a result, if it is one. -/
def errorOf? {α : Type} : Except ReadError α → Option ReadError
  | .ok _ => none
  | .error fault => some fault

/-- Is the result there if all checks are met, and the first defect otherwise? -/
def Reports {α : Type} (result : Except ReadError α) (checks : List Check) : Prop :=
  errorOf? result = firstDefect? checks

namespace Reports

variable {α β : Type} {result : Except ReadError α} {checks more : List Check}

theorem ok (a : α) : Reports (.ok a) [] := rfl

/-- What is done next makes its checks next. -/
theorem bind {next : α → Except ReadError β} (first : Reports result checks)
    (second : ∀ a, result = .ok a → Reports (next a) more) :
    Reports (result >>= next) (checks ++ more) := by
  unfold Reports firstDefect? at *
  rw [List.findSome?_append, ← first]
  cases result with
  | ok a => exact second a rfl
  | error fault => rfl

/-- Making something of a result needs no more checks. -/
theorem map (f : α → β) (first : Reports result checks) : Reports (result.map f) checks := by
  unfold Reports at *
  rw [← first]
  cases result <;> rfl

theorem bind_pure (f : α → β) (first : Reports result checks) :
    Reports (result >>= fun a => pure (f a)) checks := by
  have all := first.bind fun a _ => Reports.ok (f a)
  rwa [List.append_nil] at all

/-- Items are checked one after the other. -/
theorem mapM {γ : Type} {read : γ → Except ReadError α} {checks : γ → List Check}
    (each : ∀ item, Reports (read item) (checks item)) (items : List γ) :
    Reports (items.mapM read) (items.flatMap checks) := by
  induction items with
  | nil => exact ok []
  | cons item items ih =>
      rw [List.mapM_cons, List.flatMap_cons]
      exact (each item).bind fun first _ => ih.bind_pure (first :: ·)

theorem required (e : Element) (key : String) : Reports (e.required key) [.attribute e key] := by
  unfold Reports firstDefect? Element.required
  rw [List.findSome?_singleton, defect?]
  cases e.attr? key <;> rfl

theorem number (e : Element) (key : String) : Reports (e.number key) [.number e key] := by
  unfold Reports firstDefect? Element.number Element.required
  rw [List.findSome?_singleton, defect?]
  cases e.attr? key with
  | none => rfl
  | some raw =>
      show errorOf? (match Number.readChars _ with | some value => _ | none => _) =
        (match Number.readChars _ with | some value => _ | none => _)
      cases Number.readChars (Text.trim raw.toList) <;> rfl

/-- A child is checked behind the check that it is there. -/
theorem below {e : Element} {name : String} {next : Element → Except ReadError β}
    {checks : Element → List Check} (child : ∀ found, Reports (next found) (checks found)) :
    Reports (e.requiredChild name >>= next) (Check.below e name checks) := by
  have there : Reports (e.requiredChild name) [.child e name] := by
    unfold Reports firstDefect? Element.requiredChild
    rw [List.findSome?_singleton, defect?]
    cases e.child? name <;> rfl
  refine there.bind fun found given => ?_
  rw [Font.requiredChild_eq_ok.mp given]
  simpa using child found

end Reports

theorem CharMapEntry.reports (e : Element) : Reports (ofElement e) (checks e) :=
  (Reports.required e "name").bind fun _ _ => (Reports.required e "code").bind fun _ _ => .ok _

theorem Metric.reports (e : Element) : Reports (ofElement e) (checks e) :=
  (Reports.required e "name").bind fun _ _ =>
    (Reports.number e "width").bind fun _ _ => (Reports.number e "lsb").bind fun _ _ => .ok _

theorem Point.reports (e : Element) : Reports (ofElement e) (checks e) := by
  have flags : Reports (readFlags e)
      (if (e.attr? "on").isSome then [.number e "on"] else []) := by
    unfold readFlags
    split
    · exact (Reports.number e "on").map _
    · exact .ok none
  exact flags.bind fun _ _ =>
    (Reports.number e "x").bind fun _ _ => (Reports.number e "y").bind fun _ _ => .ok _

theorem Contour.reports (e : Element) : Reports (ofElement e) (checks e) :=
  Reports.mapM Point.reports _

theorem BBox.reports (e : Element) : Reports (ofElement e) (checks e) :=
  (Reports.number e "xMin").bind fun _ _ => (Reports.number e "yMin").bind fun _ _ =>
    (Reports.number e "xMax").bind fun _ _ => (Reports.number e "yMax").bind fun _ _ => .ok _

theorem Glyph.reports (e : Element) : Reports (ofElement e) (checks e) := by
  have bounds : Reports (readBounds e)
      (if (e.attr? "xMin").isSome then BBox.checks e else []) := by
    unfold readBounds
    split
    · exact (BBox.reports e).map some
    · exact .ok none
  exact (Reports.required e "name").bind fun _ _ => bounds.bind fun _ _ =>
    (Reports.mapM Contour.reports (e.named contourName)).bind_pure _

namespace Font

theorem reports (document : Element) : Reports (ofDocument document) (checks document) := by
  have charMap : Reports (readCharMap document) (charMapChecks document) :=
    Reports.below fun tables => Reports.below fun subtable =>
      Reports.mapM CharMapEntry.reports (subtable.named entryName)
  have glyphs : Reports (readGlyphs document) (glyphChecks document) :=
    Reports.below fun outlines => Reports.mapM Glyph.reports (outlines.named Glyph.elementName)
  have metrics : Reports (readMetrics document) (metricChecks document) :=
    Reports.below fun table => Reports.mapM Metric.reports (table.named Metric.elementName)
  exact charMap.bind fun _ _ => glyphs.bind fun _ _ => metrics.bind_pure _

end Font

/-! ## Well-formed documents -/

/-- A point with coordinates, and with numbers for flags if it has any. -/
structure Point.IsWellFormed (e : Element) : Prop where
  x : e.HasNumber "x"
  y : e.HasNumber "y"
  on : e.Has "on" → e.HasNumber "on"

/-- A glyph with a name, with all four bounds if it has the first, and with points that are
well-formed. -/
structure Glyph.IsWellFormed (e : Element) : Prop where
  name : e.Has "name"
  bounds : e.Has "xMin" →
    e.HasNumber "xMin" ∧ e.HasNumber "yMin" ∧ e.HasNumber "xMax" ∧ e.HasNumber "yMax"
  points : ∀ contour ∈ e.named contourName, ∀ point ∈ contour.named "pt",
    Point.IsWellFormed point

/-- A document that has the three tables, with all that is needed of each record. -/
structure Font.IsWellFormed (document : Element) : Prop where
  charMap : ∃ tables subtable, document.child? charMapName = some tables ∧
    tables.child? subtableName = some subtable ∧
    ∀ entry ∈ subtable.named entryName, entry.Has "name" ∧ entry.Has "code"
  glyphs : ∃ outlines, document.child? outlinesName = some outlines ∧
    ∀ glyph ∈ outlines.named Glyph.elementName, Glyph.IsWellFormed glyph
  metrics : ∃ table, document.child? metricsName = some table ∧
    ∀ metric ∈ table.named Metric.elementName,
      metric.Has "name" ∧ metric.HasNumber "width" ∧ metric.HasNumber "lsb"

/-! ## Well-formed documents have no defects -/

section Met

variable {e : Element} {key name : String}

/-- Are all checks met? -/
def Check.Met (checks : List Check) : Prop := ∀ check ∈ checks, check.defect? = none

theorem Check.firstDefect?_eq_none_iff {checks : List Check} :
    firstDefect? checks = none ↔ Met checks :=
  List.findSome?_eq_none_iff

@[simp] theorem Check.met_nil : Met [] := fun _ mem => absurd mem List.not_mem_nil

@[simp] theorem Check.met_cons {check : Check} {checks : List Check} :
    Met (check :: checks) ↔ check.defect? = none ∧ Met checks :=
  List.forall_mem_cons

@[simp] theorem Check.met_append {checks more : List Check} :
    Met (checks ++ more) ↔ Met checks ∧ Met more :=
  List.forall_mem_append

@[simp] theorem Check.met_flatMap {α : Type} {items : List α} {checks : α → List Check} :
    Met (items.flatMap checks) ↔ ∀ item ∈ items, Met (checks item) := by
  simp only [Met, List.mem_flatMap]
  exact ⟨fun all item mem check here => all check ⟨item, mem, here⟩,
    fun all check ⟨item, mem, here⟩ => all item mem check here⟩

/-- Checks that are made only if there is something to check. -/
theorem Check.met_if {condition : Prop} [Decidable condition] {checks : List Check} :
    Met (if condition then checks else []) ↔ (condition → Met checks) := by
  split <;> simp [*]

@[simp] theorem Check.defect?_attribute_eq_none_iff :
    (Check.attribute e key).defect? = none ↔ e.Has key := by
  rw [defect?, Element.Has]
  cases e.attr? key <;> simp

@[simp] theorem Check.defect?_number_eq_none_iff :
    (Check.number e key).defect? = none ↔ e.HasNumber key := by
  rw [defect?, Element.HasNumber]
  cases e.attr? key with
  | none => simp
  | some raw => cases found : Number.readChars (Text.trim raw.toList) <;> simp [found]

theorem Check.met_below {checks : Element → List Check} :
    Met (below e name checks) ↔
      ∃ child, e.child? name = some child ∧ Met (checks child) := by
  rw [below, met_cons, defect?]
  cases e.child? name <;> simp

end Met

theorem Point.met_checks_iff {e : Element} : Met (checks e) ↔ IsWellFormed e := by
  simp only [checks, met_append, met_if, met_cons, met_nil, defect?_number_eq_none_iff,
    Option.isSome_iff_exists, and_true]
  exact ⟨fun ⟨on, x, y⟩ => ⟨x, y, on⟩, fun ⟨x, y, on⟩ => ⟨on, x, y⟩⟩

theorem Glyph.met_checks_iff {e : Element} : Met (checks e) ↔ IsWellFormed e := by
  simp only [checks, BBox.checks, Contour.checks, List.map_cons, List.map_nil, met_append, met_if,
    met_cons, met_nil, met_flatMap, defect?_attribute_eq_none_iff, defect?_number_eq_none_iff,
    Option.isSome_iff_exists, and_true, Point.met_checks_iff]
  exact ⟨fun ⟨name, bounds, points⟩ => ⟨name, bounds, points⟩,
    fun ⟨name, bounds, points⟩ => ⟨name, bounds, points⟩⟩

namespace Font

theorem met_checks_iff {document : Element} : Met (checks document) ↔ IsWellFormed document := by
  simp only [checks, charMapChecks, glyphChecks, metricChecks, CharMapEntry.checks, Metric.checks,
    met_append, met_below, met_cons, met_nil, met_flatMap, defect?_attribute_eq_none_iff,
    defect?_number_eq_none_iff, and_true, Glyph.met_checks_iff]
  constructor
  · rintro ⟨⟨tables, tables_found, subtable, subtable_found, entries⟩, glyphs, metrics⟩
    exact ⟨⟨tables, subtable, tables_found, subtable_found, entries⟩, glyphs, metrics⟩
  · rintro ⟨⟨tables, subtable, tables_found, subtable_found, entries⟩, glyphs, metrics⟩
    exact ⟨⟨tables, tables_found, subtable, subtable_found, entries⟩, glyphs, metrics⟩

/-- A document is read exactly if it is well-formed, and what is reported of any other is the
first of its defects. -/
theorem read_or_first_defect (document : Element) :
    ((∃ f, ofDocument document = .ok f) ↔ IsWellFormed document) ∧
      ∀ defect, ofDocument document = .error defect ↔
        (checks document).findSome? Check.defect? = some defect := by
  have reported : errorOf? (ofDocument document) = firstDefect? (checks document) :=
    reports document
  constructor
  · rw [← met_checks_iff, ← firstDefect?_eq_none_iff, ← reported]
    cases ofDocument document with
    | ok f => exact ⟨fun _ => rfl, fun _ => ⟨f, rfl⟩⟩
    | error defect => exact ⟨fun ⟨_, read⟩ => (nomatch read), fun none => (nomatch none)⟩
  · intro defect
    show _ ↔ firstDefect? (checks document) = some defect
    rw [← reported]
    cases ofDocument document with
    | ok f => exact ⟨fun failed => (nomatch failed), fun some => (nomatch some)⟩
    | error own => simp [errorOf?]

/-- The first bound that is missing is reported, and not the last, which is no number, nor that
there are no metrics. -/
example :
    ofDocument ⟨"ttFont", [],
      [.element "cmap" [] [.element "cmap_format_12" [] []],
        .element "glyf" [] [.element "TTGlyph" [("name", "A"), ("yMax", ""), ("xMin", "0")] []]]⟩ =
      .error (.missingAttribute "TTGlyph" "yMin") := rfl

end Font

end SymbolFont
