/-
# Names that stay apart

The standard revision changes the names of glyphs only by correcting them, since the glyph that
is put in for the box bears the name of the one that it replaces.  Two different names are
corrected to the same one in just one way: one of them is the other with the stray space in it.
So the glyphs of a revised font have names of their own unless the font had such a pair.
-/

import Mathlib.Data.List.Nodup
import SymbolFont.Proofs.Edit.Names
import SymbolFont.Proofs.Edit.Standard

namespace SymbolFont

open Markup

/-! ## Names with the same corrected form -/

/-- A name without a space behind the marker is correct. -/
theorem corrected_marker_append {rest : String} (tight : ¬ " ".toList <+: rest.toList) :
    corrected ("SW" ++ rest) = "SW" ++ rest := by
  apply corrected_eq_self
  rintro ⟨behind, split⟩
  apply tight
  refine ⟨behind, ?_⟩
  simpa using split

/-- The marker and a space before a rest make another name than the marker alone. -/
theorem spaced_ne_tight (rest : String) : "SW " ++ rest ≠ "SW" ++ rest := by
  intro same
  have lengths := congrArg (fun text => text.toList.length) same
  simp at lengths

/-- Does the list hold a name with the stray space beside the same name without it? -/
def HasSpacedTwin (names : List String) : Prop :=
  ∃ rest : String, ¬ " ".toList <+: rest.toList ∧ "SW " ++ rest ∈ names ∧ "SW" ++ rest ∈ names

/-- A name that is to be corrected becomes another one of the list only if the two are twins. -/
theorem hasSpacedTwin_of_corrected_eq {names : List String} {rest other : String}
    (mem : "SW " ++ rest ∈ names) (other_mem : other ∈ names)
    (correct : ¬ "SW ".toList <+: other.toList)
    (same : corrected ("SW " ++ rest) = corrected other) : HasSpacedTwin names := by
  rw [corrected_append, corrected_eq_self correct] at same
  subst same
  refine ⟨rest, ?_, mem, other_mem⟩
  rintro ⟨behind, split⟩
  apply correct
  refine ⟨behind, ?_⟩
  simp [← split]

/-- Correcting keeps the names of a list apart exactly if it holds no twins. -/
theorem corrected_injOn_iff (names : List String) :
    (∀ a ∈ names, ∀ b ∈ names, corrected a = corrected b → a = b) ↔ ¬ HasSpacedTwin names := by
  constructor
  · rintro apart ⟨rest, tight, spaced_mem, tight_mem⟩
    have same : corrected ("SW " ++ rest) = corrected ("SW" ++ rest) := by
      rw [corrected_append, corrected_marker_append tight]
    exact spaced_ne_tight rest (apart _ spaced_mem _ tight_mem same)
  · intro single a a_mem b b_mem same
    by_cases a_spaced : "SW ".toList <+: a.toList
    · obtain ⟨rest, rfl⟩ := exists_eq_append a_spaced
      by_cases b_spaced : "SW ".toList <+: b.toList
      · obtain ⟨rest', rfl⟩ := exists_eq_append b_spaced
        rw [corrected_append, corrected_append] at same
        have tails : rest = rest' := by
          rw [← String.toList_inj] at same ⊢
          simpa using same
        rw [tails]
      · exact absurd (hasSpacedTwin_of_corrected_eq a_mem b_mem b_spaced same) single
    · by_cases b_spaced : "SW ".toList <+: b.toList
      · obtain ⟨rest, rfl⟩ := exists_eq_append b_spaced
        exact absurd (hasSpacedTwin_of_corrected_eq b_mem a_mem a_spaced same.symm) single
      · rwa [corrected_eq_self a_spaced, corrected_eq_self b_spaced] at same

/-! ## Names of a revised font -/

/-- The edits for given settings are the standard ones with the template that was read. -/
theorem exists_template_of_edits {read : ReadFile} {o : EditOptions} {edits : List Edit}
    {notes : List Event} (built : o.edits read = .ok (edits, notes)) :
    ∃ template, edits = standardEdits template o.scale o.boxWidth := by
  unfold EditOptions.edits at built
  split at built
  · cases built
    exact ⟨_, rfl⟩
  · cases built

/-- The standard revision corrects the names of glyphs, and changes no name otherwise. -/
theorem map_name_of_run_standardEdits {template : BoxTemplate} {scale width : Float}
    {f f' : Font Float} (result : Edit.run (standardEdits template scale width) f = .ok f') :
    f'.glyphs.map Glyph.name = (f.glyphs.map Glyph.name).map corrected := by
  rw [Edit.run_standardEdits] at result
  split at result
  · rename_i edited replaced
    cases result
    obtain ⟨_, -, rfl⟩ := Option.map_eq_some_iff.mp replaced
    -- Taking out contours and scaling come last, and leave names alone.
    have later : ∀ gs : List (Glyph Float),
        ((gs.map fun g => if g.isFilledNumeral then { g with contours := [] } else g).map
          (Glyph.rescale scale)).map Glyph.name = gs.map Glyph.name := by
      intro gs
      rw [List.map_map, List.map_map]
      refine List.map_congr_left fun g _ => ?_
      exact (Glyph.rescale_name scale _).trans (Glyph.hollow_name g)
    show (((Font.modifyGlyph boxName _ _).map _).map _).map Glyph.name = _
    rw [later, Font.map_name_modifyGlyph template.name_eq]
    show (f.glyphs.map Glyph.correctNames).map Glyph.name = _
    rw [List.map_map, List.map_map]
    rfl
  · cases result

/-- The standard revision succeeds if a glyph has the name of the box once names are corrected. -/
theorem exists_run_standardEdits (template : BoxTemplate) (scale width : Float) {f : Font Float}
    {g : Glyph Float} (mem : g ∈ f.glyphs) (box : corrected g.name = boxName) :
    ∃ f', Edit.run (standardEdits template scale width) f = .ok f' := by
  have found : ((f.correctNames.setBoxWidth width).setBoxOutline? template).isSome :=
    (Font.setBoxOutline?_isSome_iff _ _).mpr
      ⟨g.correctNames, List.mem_map.mpr ⟨g, mem, rfl⟩, box⟩
  obtain ⟨edited, result⟩ := Option.isSome_iff_exists.mp found
  exact ⟨_, by rw [Edit.run_standardEdits, result]⟩

/-! ## A sample

A font with the box and two number glyphs. -/

/-- A document with the box and two more glyphs. -/
def numbersDocument (first second : String) : Element where
  name := "ttFont"
  children :=
    [.element "cmap" [] [.element "cmap_format_12" [] []],
    .element "glyf" [] [.element "TTGlyph" [("name", "SWM")] [],
      .element "TTGlyph" [("name", first)] [], .element "TTGlyph" [("name", second)] []],
    .element "hmtx" [] []]

/-- The font that the document holds. -/
def numbersFont (first second : String) : Font Float where
  charMap := []
  glyphs := [{ name := "SWM" }, { name := first }, { name := second }]
  metrics := []
  document := numbersDocument first second

theorem ofDocument_numbersDocument (first second : String) :
    Font.ofDocument (numbersDocument first second) = .ok (numbersFont first second) := rfl

/-- Settings with a template file. -/
def templateOptions : EditOptions := { boxTemplate := some "box.xml" }

/-- The template of the sample is in every file. -/
def readTemplate : ReadFile := fun _ => .ok sampleTemplateText.toUTF8

/-- What is stored of a text is read as this text. -/
theorem text_of_toUTF8 {read : ReadFile} {path text : String}
    (found : read path = .ok text.toUTF8) : read.text path = .ok text := by
  have decoded : String.fromUTF8? text.toUTF8 = some text := by
    rw [String.fromUTF8?, String.toUTF8_eq_toByteArray, dif_pos text.isValidUTF8]
    rfl
  simp only [ReadFile.text, found, decoded]

theorem edits_templateOptions :
    templateOptions.edits readTemplate =
      .ok (standardEdits sampleTemplate scaleFactor boxWidth, [.templateRenamed "M"]) := by
  have text : readTemplate.text "box.xml" = .ok sampleTemplateText := text_of_toUTF8 rfl
  have loaded : BoxTemplate.load readTemplate "box.xml" =
      .ok (sampleTemplate, [.templateRenamed "M"]) := by
    simp only [BoxTemplate.load, text, ofText_sampleTemplateText]
  simp only [EditOptions.edits, EditOptions.template, templateOptions, loaded]

/-- The two number glyphs come out of the revision with their names corrected. -/
theorem exists_revision_of_numbersFont (first second : String) :
    ∃ edits notes f', templateOptions.edits readTemplate = .ok (edits, notes) ∧
      Edit.run edits (numbersFont first second) = .ok f' ∧
      f'.glyphs.map Glyph.name = ["SWM", corrected first, corrected second] := by
  have correct : corrected "SWM" = boxName := by decide
  obtain ⟨f', result⟩ := exists_run_standardEdits sampleTemplate scaleFactor boxWidth
    (f := numbersFont first second) List.mem_cons_self correct
  refine ⟨_, _, f', edits_templateOptions, result, ?_⟩
  rw [map_name_of_run_standardEdits result]
  show [corrected "SWM", _, _] = _
  rw [correct]
  rfl

/-! ## Names that stay apart -/

/-- Where glyphs have names of their own, the standard revision leaves each its own exactly if
no two of them differ by nothing but the stray space. -/
theorem nodup_names_of_revision_iff {read : ReadFile} {o : EditOptions} {edits : List Edit}
    {notes : List Event} {f f' : Font Float} (built : o.edits read = .ok (edits, notes))
    (distinct : (f.glyphs.map Glyph.name).Nodup) (result : Edit.run edits f = .ok f') :
    (f'.glyphs.map Glyph.name).Nodup ↔ ¬ HasSpacedTwin (f.glyphs.map Glyph.name) := by
  obtain ⟨template, rfl⟩ := exists_template_of_edits built
  rw [map_name_of_run_standardEdits result, List.nodup_map_iff_inj_on distinct,
    corrected_injOn_iff]

/-- Numbers that differ in more than a space keep names of their own. -/
theorem nodup_names_of_different_numbers :
    ∃ edits notes f', templateOptions.edits readTemplate = .ok (edits, notes) ∧
      ((numbersFont "SW 250" "SW251").glyphs.map Glyph.name).Nodup ∧
      Edit.run edits (numbersFont "SW 250" "SW251") = .ok f' ∧
      (f'.glyphs.map Glyph.name).Nodup ∧ ¬ HasSpacedTwin ["SWM", "SW 250", "SW251"] := by
  obtain ⟨edits, notes, f', built, result, names⟩ :=
    exists_revision_of_numbersFont "SW 250" "SW251"
  have distinct : ((numbersFont "SW 250" "SW251").glyphs.map Glyph.name).Nodup := by decide
  have apart : (f'.glyphs.map Glyph.name).Nodup := by
    rw [names]
    decide
  exact ⟨edits, notes, f', built, distinct, result, apart,
    (nodup_names_of_revision_iff built distinct result).mp apart⟩

/-- A glyph with the stray space and its twin have names of their own, but are given the same. -/
theorem revision_joins_spaced_twin :
    ∃ edits notes f f', templateOptions.edits readTemplate = .ok (edits, notes) ∧
      Font.ofDocument (numbersDocument "SW 250" "SW250") = .ok f ∧
      (f.glyphs.map Glyph.name).Nodup ∧ Edit.run edits f = .ok f' ∧
      f'.glyphs.map Glyph.name = ["SWM", "SW250", "SW250"] ∧
      ¬ (f'.glyphs.map Glyph.name).Nodup := by
  obtain ⟨edits, notes, f', built, result, names⟩ :=
    exists_revision_of_numbersFont "SW 250" "SW250"
  have joined : ["SWM", corrected "SW 250", corrected "SW250"] = ["SWM", "SW250", "SW250"] := by
    decide
  rw [joined] at names
  refine ⟨edits, notes, numbersFont "SW 250" "SW250", f', built,
    ofDocument_numbersDocument _ _, by decide, result, names, ?_⟩
  rw [names]
  decide

end SymbolFont
