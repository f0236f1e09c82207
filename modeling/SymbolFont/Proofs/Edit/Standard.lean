/-
# What the standard revision makes of a font

Six edits follow one another, and most of them look at names that an earlier one has
changed.  Their result is stated here without them: every entry, glyph and metric of the
revised font is told from the one in the same place before, and a revision fails for one
reason only, that no glyph has the name of the box once names are corrected.
-/

import Mathlib.Tactic.Common
import SymbolFont.Edit.Standard
import SymbolFont.Proofs.Font.Lookup
import SymbolFont.Proofs.Glyph.Class
import SymbolFont.Proofs.Glyph.Outline
import SymbolFont.Proofs.Markup.Node

namespace SymbolFont

open Markup

/-- How a glyph that is not replaced comes out of the standard revision.  Which of the
fields on outlines applies is decided by the class of the corrected name. -/
structure Glyph.Revised (factor : Float) (before after : Glyph Float) : Prop where
  name : after.name = corrected before.name
  other : after.other = before.other.map (Node.mapValues corrected)
  numeral : GlyphClass.of (corrected before.name) = .numeral →
    after.contours = [] ∧ after.bounds = before.bounds
  scaled : GlyphClass.of (corrected before.name) = .base ∨
      GlyphClass.of (corrected before.name) = .extension →
    ∀ box ∈ before.bounds, ∀ cx cy, (cx, cy) = box.center →
      after.bounds = some
        ⟨(box.xMin - cx) * factor, (box.yMin - cy) * factor,
          (box.xMax - cx) * factor, (box.yMax - cy) * factor⟩ ∧
      after.contours = before.contours.map (List.map fun p =>
        { p with x := (p.x - cx) * factor, y := (p.y - cy) * factor })
  unboxed : GlyphClass.of (corrected before.name) = .base ∨
      GlyphClass.of (corrected before.name) = .extension →
    before.bounds = none → after.bounds = none ∧ after.contours = before.contours
  kept : GlyphClass.of (corrected before.name) = .box ∨
      GlyphClass.of (corrected before.name) = .reserved →
    after.bounds = before.bounds ∧ after.contours = before.contours

namespace Glyph

/-- The three edits of outlines, on one glyph. -/
def revise (factor : Float) (g : Glyph Float) : Glyph Float :=
  let named := g.correctNames
  rescale factor (if named.isFilledNumeral then { named with contours := [] } else named)

/-- A glyph that is not replaced comes out as the revision says. -/
theorem revised_revise (factor : Float) (g : Glyph Float) :
    Revised factor g (g.revise factor) := by
  have named : g.correctNames.cls = GlyphClass.of (corrected g.name) := rfl
  constructor
  case name =>
    rw [revise, rescale_name]
    split <;> rfl
  case other =>
    rw [revise, rescale_other, ← Node.mapValuesList_eq_map]
    split <;> rfl
  case numeral =>
    intro numeral
    rw [← named] at numeral
    have unscaled : ({ g.correctNames with contours := [] } : Glyph Float).cls.isScaled =
        false := by
      show g.correctNames.cls.isScaled = false
      rw [numeral]
      rfl
    rw [revise, hollow_of_numeral numeral, rescale_of_not_scaled factor unscaled]
    exact ⟨rfl, rfl⟩
  case scaled =>
    intro symbol box boxed cx cy center
    rw [← named] at symbol
    have other : g.correctNames.cls ≠ .numeral := by
      rcases symbol with symbol | symbol <;> simp [symbol]
    have scaled : g.correctNames.cls.isScaled = true := by
      rcases symbol with symbol | symbol <;> simp [symbol, GlyphClass.isScaled]
    have boxed' : g.correctNames.bounds = some box := boxed
    rw [revise, hollow_of_not_numeral other]
    simp only [rescale, boxed', scaled, if_true, ← center]
    exact ⟨rfl, rfl⟩
  case unboxed =>
    intro symbol unboxed
    rw [← named] at symbol
    have other : g.correctNames.cls ≠ .numeral := by
      rcases symbol with symbol | symbol <;> simp [symbol]
    have unboxed' : g.correctNames.bounds = none := unboxed
    rw [revise, hollow_of_not_numeral other, rescale_of_unboxed factor unboxed']
    exact ⟨unboxed, rfl⟩
  case kept =>
    intro plain
    rw [← named] at plain
    have other : g.correctNames.cls ≠ .numeral := by
      rcases plain with plain | plain <;> simp [plain]
    have unscaled : g.correctNames.cls.isScaled = false := by
      rcases plain with plain | plain <;> simp [plain, GlyphClass.isScaled]
    rw [revise, hollow_of_not_numeral other, rescale_of_not_scaled factor unscaled]
    exact ⟨rfl, rfl⟩

end Glyph

namespace Font

/-- Whether the box glyph can be replaced is a matter of names. -/
theorem setBoxOutline?_isSome_iff (template : BoxTemplate) (f : Font Float) :
    (f.setBoxOutline? template).isSome ↔ ∃ g ∈ f.glyphs, g.name = boxName := by
  simp [setBoxOutline?, glyph?]

/-- The glyph of a template is none that later edits touch. -/
theorem hollow_template (template : BoxTemplate) :
    (if template.glyph.isFilledNumeral then { template.glyph with contours := [] }
      else template.glyph) = template.glyph := by
  have box : template.glyph.cls = .box := (GlyphClass.of_eq_box_iff _).mpr template.name_eq
  exact Glyph.hollow_of_not_numeral (by simp [box])

theorem rescale_template (template : BoxTemplate) (factor : Float) :
    Glyph.rescale factor template.glyph = template.glyph := by
  have box : template.glyph.cls = .box := (GlyphClass.of_eq_box_iff _).mpr template.name_eq
  exact Glyph.rescale_of_not_scaled factor (by rw [box]; rfl)

theorem hollow_rescale_template (template : BoxTemplate) (factor : Float) :
    Glyph.rescale factor
      (if template.glyph.isFilledNumeral then { template.glyph with contours := [] }
        else template.glyph) = template.glyph := by
  rw [hollow_template, rescale_template]

/-- Resetting widths looks at names alone, whatever was made of the widths before. -/
theorem resetWidths_setBoxWidth (before after : Float) (f : Font Float) :
    (f.setBoxWidth before).resetWidths after = f.resetWidths after := by
  simp only [resetWidths, setBoxWidth, List.map_map]
  congr 1
  refine List.map_congr_left fun m _ => ?_
  simp only [Function.comp]
  split <;> rfl

/-- The widths of the revised font. -/
theorem metrics_resetWidths_correctNames (width : Float) (f : Font Float) :
    (f.correctNames.resetWidths width).metrics = f.metrics.map fun m =>
      { name := corrected m.name, lsb := m.lsb
        width := if corrected m.name = boxName then width else 0.0 } := by
  simp only [resetWidths, correctNames, List.map_map]
  refine List.map_congr_left fun m _ => ?_
  have box : (m.rename (corrected m.name)).cls = .box ↔ corrected m.name = boxName :=
    GlyphClass.of_eq_box_iff _
  simp only [Function.comp, box]
  rfl

end Font

/-- The standard revision as one step: it replaces the outline of the box, if there is one,
and fails otherwise. -/
theorem Edit.run_standardEdits (template : BoxTemplate) (scale width : Float) (f : Font Float) :
    Edit.run (standardEdits template scale width) f =
      match (f.correctNames.setBoxWidth width).setBoxOutline? template with
      | some edited => .ok ((edited.hollowNumerals.rescale scale).resetWidths width)
      | none => .error (.boxGlyphMissing boxName) := by
  have steps : Edit.run (standardEdits template scale width) f =
      Edit.apply (f.correctNames.setBoxWidth width) (.boxOutline template) >>= fun edited =>
        .ok ((edited.hollowNumerals.rescale scale).resetWidths width) := rfl
  rw [steps, Edit.apply]
  cases (f.correctNames.setBoxWidth width).setBoxOutline? template <;> rfl

/-- The standard revision without its steps.  It fails exactly if no glyph has the name of
the box once names are corrected.  Otherwise the first such glyph is the template as it
stands, every other glyph is revised where it is, entries keep their codes, and the box is
the only glyph with a width. -/
theorem standard_revision_closed_form (read : ReadFile) (o : EditOptions)
    (template : BoxTemplate) (notes : List Event)
    (readable : o.template read = .ok (template, notes)) (f : Font Float) :
    ∃ edits, o.edits read = .ok (edits, notes) ∧
      ((∀ g ∈ f.glyphs, corrected g.name ≠ boxName) →
        Edit.run edits f = .error (.boxGlyphMissing boxName)) ∧
      ((∃ g ∈ f.glyphs, corrected g.name = boxName) →
        ∃ f', Edit.run edits f = .ok f' ∧
          f'.charMap = f.charMap.map (fun e => ⟨corrected e.name, e.code⟩) ∧
          f'.metrics = f.metrics.map (fun m =>
            { name := corrected m.name, lsb := m.lsb
              width := if corrected m.name = boxName then o.boxWidth else 0.0 }) ∧
          f'.glyphs.length = f.glyphs.length ∧
          ∀ i g, f.glyphs[i]? = some g → ∃ g', f'.glyphs[i]? = some g' ∧
            if corrected g.name = boxName ∧
                ∀ earlier ∈ f.glyphs.take i, corrected earlier.name ≠ boxName
            then g' = template.glyph
            else Glyph.Revised o.scale g g') := by
  refine ⟨standardEdits template o.scale o.boxWidth, by rw [EditOptions.edits, readable], ?_, ?_⟩
  · intro none
    rw [Edit.run_standardEdits]
    have missing : ((f.correctNames.setBoxWidth o.boxWidth).setBoxOutline? template) = .none := by
      rw [← Option.not_isSome_iff_eq_none, Font.setBoxOutline?_isSome_iff]
      rintro ⟨g', present', named⟩
      obtain ⟨g, present, rfl⟩ := List.mem_map.mp present'
      exact none g present named
    rw [missing]
  · rintro ⟨box, present, named⟩
    have found : ((f.correctNames.setBoxWidth o.boxWidth).setBoxOutline? template).isSome :=
      (Font.setBoxOutline?_isSome_iff _ _).mpr
        ⟨box.correctNames, List.mem_map.mpr ⟨box, present, rfl⟩, named⟩
    obtain ⟨edited, result⟩ := Option.isSome_iff_exists.mp found
    refine ⟨(edited.hollowNumerals.rescale o.scale).resetWidths o.boxWidth, ?_, ?_⟩
    · rw [Edit.run_standardEdits, result]
    obtain ⟨_, _, rfl⟩ := Option.map_eq_some_iff.mp result
    refine ⟨rfl, ?_, ?_, ?_⟩
    · rw [← Font.metrics_resetWidths_correctNames,
        ← Font.resetWidths_setBoxWidth o.boxWidth o.boxWidth f.correctNames]
      rfl
    · simp only [Font.resetWidths, Font.rescale, Font.hollowNumerals, Font.setBoxWidth,
        List.length_map, Font.length_modifyGlyph, Font.correctNames]
    · intro i g at_i
      simp only [Font.resetWidths, Font.rescale, Font.hollowNumerals, Font.setBoxWidth,
        List.getElem?_map, Font.getElem?_modifyGlyph, Font.correctNames, at_i, Option.map_some]
      refine ⟨_, rfl, ?_⟩
      have first_iff : (g.correctNames.name = boxName ∧
            ∀ earlier ∈ (f.glyphs.map Glyph.correctNames).take i, earlier.name ≠ boxName) ↔
          (corrected g.name = boxName ∧
            ∀ earlier ∈ f.glyphs.take i, corrected earlier.name ≠ boxName) := by
        rw [← List.map_take, List.forall_mem_map]
        rfl
      by_cases first : corrected g.name = boxName ∧
          ∀ earlier ∈ f.glyphs.take i, corrected earlier.name ≠ boxName
      · rw [if_pos first, if_pos (first_iff.mpr first)]
        exact Font.hollow_rescale_template template o.scale
      · rw [if_neg first, if_neg (mt first_iff.mp first)]
        exact Glyph.revised_revise o.scale g

/-- A box glyph whose name has to be corrected is found and replaced by a template that bears
another name, and the number glyph behind it loses its contours. -/
theorem standard_revision_of_uncorrected_box :
    let read : ReadFile := fun _ =>
      .ok "<TTGlyph name='M' xMin='0' yMin='0' xMax='1' yMax='1'/>".toUTF8
    let o : EditOptions := { boxTemplate := some "box.xml" }
    let template := BoxTemplate.ofGlyph { name := "M", bounds := some ⟨0, 0, 1, 1⟩ }
    let f : Font Float :=
      { charMap := [], metrics := [], document := { name := "ttFont" }
        glyphs := [{ name := "SW M" }, { name := "SW 250", contours := [[]] }] }
    o.template read = .ok (template, [.templateRenamed "M"]) ∧
      (∃ g ∈ f.glyphs, corrected g.name = boxName) ∧
      ∃ edits f', o.edits read = .ok (edits, [.templateRenamed "M"]) ∧
        Edit.run edits f = .ok f' ∧ f'.glyphs[0]? = some template.glyph ∧
        ∃ g', f'.glyphs[1]? = some g' ∧ g'.name = "SW250" ∧ g'.contours = [] := by
  intro read o template f
  have parsed : BoxTemplate.readGlyph "<TTGlyph name='M' xMin='0' yMin='0' xMax='1' yMax='1'/>" =
      .ok { name := "M", bounds := some ⟨0, 0, 1, 1⟩ } := by decide +kernel
  have text : read.text "box.xml" =
      .ok "<TTGlyph name='M' xMin='0' yMin='0' xMax='1' yMax='1'/>" := by decide +kernel
  have readable : o.template read = .ok (template, [.templateRenamed "M"]) := by
    show BoxTemplate.load read "box.xml" = _
    rw [BoxTemplate.load, text]
    simp only [BoxTemplate.ofText, parsed]
    rfl
  have present : ∃ g ∈ f.glyphs, corrected g.name = boxName :=
    ⟨{ name := "SW M" }, by simp [f], by decide⟩
  obtain ⟨edits, built, -, succeeds⟩ :=
    standard_revision_closed_form read o template _ readable f
  obtain ⟨f', result, -, -, -, glyphs⟩ := succeeds present
  obtain ⟨box, at_zero, replaced⟩ := glyphs 0 _ rfl
  obtain ⟨number, at_one, revised⟩ := glyphs 1 _ rfl
  have is_first : corrected "SW M" = boxName ∧
      ∀ earlier ∈ f.glyphs.take 0, corrected earlier.name ≠ boxName := by simp; decide
  have not_box : ¬ (corrected "SW 250" = boxName ∧
      ∀ earlier ∈ f.glyphs.take 1, corrected earlier.name ≠ boxName) := by
    intro h
    exact absurd h.1 (by decide)
  rw [if_pos is_first] at replaced
  rw [if_neg not_box] at revised
  refine ⟨readable, present, edits, f', built, result, by rw [at_zero, replaced], number, at_one,
    ?_⟩
  exact ⟨revised.name.trans (by decide), (revised.numeral (by decide)).1⟩

end SymbolFont
