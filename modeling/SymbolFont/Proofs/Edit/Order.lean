/-
# The order of edits

Once names are corrected, the other edits may come in any order.  Two of them work on metrics
and three on glyphs, and no two of the same kind see what the other has changed: widths are
reset by names alone, number glyphs are not scaled, and the template for the box is neither
emptied nor scaled.  All but the scaling may also be repeated, so that what a revision makes
of a font is told by which edits it holds.
-/

import Mathlib.Data.List.Dedup
import Mathlib.Data.List.Perm.Basic
import SymbolFont.Proofs.Edit.Standard

namespace SymbolFont

namespace Font

/-- Is there a glyph with the name of the box? -/
def HasBox (f : Font Float) : Prop := boxName ∈ f.glyphs.map Glyph.name

instance (f : Font Float) : Decidable f.HasBox :=
  inferInstanceAs (Decidable (boxName ∈ f.glyphs.map Glyph.name))

/-- Giving the box its width where it has none and resetting all widths may change places, for
the width that is reset to is the one that is given. -/
theorem setBoxWidth_resetWidths (width : Float) (f : Font Float) :
    (f.resetWidths width).setBoxWidth width = (f.setBoxWidth width).resetWidths width := by
  rw [resetWidths_setBoxWidth]
  simp only [resetWidths, setBoxWidth, List.map_map]
  congr 1
  refine List.map_congr_left fun m _ => ?_
  simp only [Function.comp]
  have sameClass : ∀ w, ({ m with width := w } : Metric Float).cls = m.cls := fun _ => rfl
  rw [sameClass]
  by_cases box : m.cls = .box
  · simp only [if_pos box]
    split <;> rfl
  · rw [if_neg fun unset => box unset.1]

theorem setBoxWidth_setBoxWidth (width : Float) (f : Font Float) :
    (f.setBoxWidth width).setBoxWidth width = f.setBoxWidth width := by
  simp only [setBoxWidth, List.map_map]
  congr 1
  refine List.map_congr_left fun m _ => ?_
  by_cases unset : m.cls = .box ∧ m.width == 0.0
  · simp only [Function.comp, if_pos unset]
    split <;> rfl
  · simp only [Function.comp, if_neg unset]

theorem resetWidths_resetWidths (width : Float) (f : Font Float) :
    (f.resetWidths width).resetWidths width = f.resetWidths width := by
  simp only [resetWidths, List.map_map]
  rfl

end Font

/-- The edits behind the correction of names, without their settings. -/
inductive LaterEdit where
  | boxWidth
  | boxOutline
  | hollowNumerals
  | rescale
  | resetWidths
  deriving DecidableEq, Repr

namespace LaterEdit

variable (template : BoxTemplate) (factor width : Float)

/-- The edit with its settings; both edits of widths have the same one. -/
def withSettings : LaterEdit → Edit
  | .boxWidth => .boxWidth width
  | .boxOutline => .boxOutline template
  | .hollowNumerals => .hollowNumerals
  | .rescale => .rescale factor
  | .resetWidths => .resetWidths width

/-- What the edit makes of a font.  Where there is no box, replacing its outline would change
nothing. -/
def change (f : Font Float) : LaterEdit → Font Float
  | .boxWidth => f.setBoxWidth width
  | .boxOutline =>
      { f with glyphs := Font.modifyGlyph boxName (fun _ => template.glyph) f.glyphs }
  | .hollowNumerals => f.hollowNumerals
  | .rescale => f.rescale factor
  | .resetWidths => f.resetWidths width

variable {template factor width}

/-! ## One edit -/

/-- No edit changes the name of a glyph. -/
theorem map_name_change (f : Font Float) (later : LaterEdit) :
    (change template factor width f later).glyphs.map Glyph.name = f.glyphs.map Glyph.name := by
  cases later with
  | boxWidth => rfl
  | boxOutline => exact Font.map_name_modifyGlyph template.name_eq f.glyphs
  | hollowNumerals =>
      simp only [change, Font.hollowNumerals, List.map_map]
      exact List.map_congr_left fun g _ => Glyph.hollow_name g
  | rescale =>
      simp only [change, Font.rescale, List.map_map]
      exact List.map_congr_left fun g _ => Glyph.rescale_name factor g
  | resetWidths => rfl

/-- So there is a box afterwards if there was one before. -/
theorem hasBox_change (f : Font Float) (later : LaterEdit) :
    (change template factor width f later).HasBox ↔ f.HasBox := by
  rw [Font.HasBox, map_name_change, Font.HasBox]

/-- The only edit that can fail is the one of the outline of the box. -/
theorem apply_withSettings (f : Font Float) (later : LaterEdit) :
    (later.withSettings template factor width).apply f =
      if later = .boxOutline ∧ ¬ f.HasBox then .error (.boxGlyphMissing boxName)
      else .ok (change template factor width f later) := by
  cases later with
  | boxOutline =>
      have present : (f.glyph? boxName).isSome ↔ f.HasBox := by
        simp [Font.glyph?, Font.HasBox]
      rw [withSettings, Edit.apply, Font.setBoxOutline?]
      cases found : f.glyph? boxName with
      | none => rw [if_pos ⟨rfl, by simp [← present, found]⟩]; rfl
      | some g => rw [if_neg (by simp [← present, found])]; rfl
  | boxWidth | hollowNumerals | rescale | resetWidths => simp [withSettings, Edit.apply, change]

/-- A run fails if it is to replace the outline of a box that is not there, and makes its changes
one after the other otherwise. -/
theorem run_withSettings (laters : List LaterEdit) (f : Font Float) :
    Edit.run (laters.map (withSettings template factor width)) f =
      if .boxOutline ∈ laters ∧ ¬ f.HasBox then .error (.boxGlyphMissing boxName)
      else .ok (laters.foldl (change template factor width) f) := by
  induction laters generalizing f with
  | nil => simp; rfl
  | cons later laters ih =>
      have step : Edit.run ((later :: laters).map (withSettings template factor width)) f =
          (later.withSettings template factor width).apply f >>=
            Edit.run (laters.map (withSettings template factor width)) := by
        rw [List.map_cons, Edit.run, List.foldlM_cons]
        rfl
      rw [step, apply_withSettings]
      by_cases fails : later = .boxOutline ∧ ¬ f.HasBox
      · rw [if_pos fails, if_pos ⟨fails.1 ▸ List.mem_cons_self, fails.2⟩]
        rfl
      · have same : (.boxOutline ∈ laters ∧ ¬ f.HasBox) ↔
            (.boxOutline ∈ later :: laters ∧ ¬ f.HasBox) := by
          rw [List.mem_cons]
          tauto
        rw [if_neg fails]
        show Edit.run _ (change template factor width f later) = _
        simp only [ih, hasBox_change, List.foldl_cons, same]

/-! ## Two edits -/

/-- The outline of the box may be replaced before or after number glyphs lose theirs. -/
theorem boxOutline_hollowNumerals (f : Font Float) :
    change template factor width (change template factor width f .hollowNumerals) .boxOutline =
      change template factor width (change template factor width f .boxOutline)
        .hollowNumerals := by
  simp only [change, Font.hollowNumerals]
  rw [Font.modifyGlyph_map Glyph.hollow_name (Font.hollow_template template)]

/-- It may be replaced before or after scaling. -/
theorem boxOutline_rescale (f : Font Float) :
    change template factor width (change template factor width f .rescale) .boxOutline =
      change template factor width (change template factor width f .boxOutline) .rescale := by
  simp only [change, Font.rescale]
  rw [Font.modifyGlyph_map (Glyph.rescale_name factor) (Font.rescale_template template factor)]

/-- Number glyphs may lose their outlines before or after scaling. -/
theorem hollowNumerals_rescale (f : Font Float) :
    change template factor width (change template factor width f .rescale) .hollowNumerals =
      change template factor width (change template factor width f .hollowNumerals)
        .rescale := by
  simp only [change, Font.rescale, Font.hollowNumerals, List.map_map]
  congr 1
  exact List.map_congr_left fun g _ => Glyph.hollow_rescale factor g

/-- Any two edits may change places.  Edits of glyphs and of metrics do not meet. -/
theorem change_comm (f : Font Float) (first second : LaterEdit) :
    change template factor width (change template factor width f first) second =
      change template factor width (change template factor width f second) first := by
  cases first <;> cases second
  case boxWidth.resetWidths => exact (Font.setBoxWidth_resetWidths width f).symm
  case resetWidths.boxWidth => exact Font.setBoxWidth_resetWidths width f
  case boxOutline.hollowNumerals => exact (boxOutline_hollowNumerals f).symm
  case hollowNumerals.boxOutline => exact boxOutline_hollowNumerals f
  case boxOutline.rescale => exact (boxOutline_rescale f).symm
  case rescale.boxOutline => exact boxOutline_rescale f
  case hollowNumerals.rescale => exact (hollowNumerals_rescale f).symm
  case rescale.hollowNumerals => exact hollowNumerals_rescale f
  all_goals rfl

instance : RightCommutative (change template factor width) := ⟨change_comm⟩

/-- All edits but scaling may be repeated. -/
theorem change_change {later : LaterEdit} (repeatable : later ≠ .rescale) (f : Font Float) :
    change template factor width (change template factor width f later) later =
      change template factor width f later := by
  cases later with
  | boxWidth => exact Font.setBoxWidth_setBoxWidth width f
  | boxOutline => simp only [change, Font.modifyGlyph_modifyGlyph template.name_eq]
  | hollowNumerals =>
      simp only [change, Font.hollowNumerals, List.map_map]
      congr 1
      exact List.map_congr_left fun g _ => Glyph.hollow_hollow g
  | rescale => exact absurd rfl repeatable
  | resetWidths => exact Font.resetWidths_resetWidths width f

/-! ## Many edits -/

/-- An edit is not missed where there is another that makes up for it. -/
theorem foldl_cons_of_absorbed {absorbed other : LaterEdit} {laters : List LaterEdit}
    (absorbs : ∀ f, change template factor width (change template factor width f absorbed) other =
      change template factor width f other)
    (mem : other ∈ laters) (f : Font Float) :
    (absorbed :: laters).foldl (change template factor width) f =
      laters.foldl (change template factor width) f := by
  have front : laters.Perm (other :: laters.erase other) := List.perm_cons_erase mem
  rw [(front.cons absorbed).foldl_eq f, front.foldl_eq f, List.foldl_cons, List.foldl_cons,
    absorbs, List.foldl_cons]

/-- Repetitions may be left out. -/
theorem foldl_dedup {laters : List LaterEdit} (once : laters.count .rescale ≤ 1) (f : Font Float) :
    laters.dedup.foldl (change template factor width) f =
      laters.foldl (change template factor width) f := by
  induction laters generalizing f with
  | nil => rfl
  | cons later laters ih =>
      have fewer : laters.count .rescale ≤ 1 := (List.count_le_count_cons).trans once
      by_cases again : later ∈ laters
      · have repeatable : later ≠ .rescale := by
          rintro rfl
          have present : 0 < laters.count .rescale := List.count_pos_iff.mpr again
          rw [List.count_cons_self] at once
          omega
        rw [List.dedup_cons_of_mem again, ih fewer,
          foldl_cons_of_absorbed (change_change repeatable) again]
      · rw [List.dedup_cons_of_notMem again, List.foldl_cons, List.foldl_cons, ih fewer]

/-- A list of later edits is a revision if it scales once and holds all other edits; giving the
box a width if it has none is not needed, since widths are reset. -/
structure IsRevision (laters : List LaterEdit) : Prop where
  rescale : laters.count .rescale = 1
  boxOutline : .boxOutline ∈ laters
  hollowNumerals : .hollowNumerals ∈ laters
  resetWidths : .resetWidths ∈ laters

/-- The shortest revision. -/
def needed : List LaterEdit := [.boxOutline, .hollowNumerals, .rescale, .resetWidths]

/-- Every revision comes down to the shortest one. -/
theorem IsRevision.foldl_eq {laters : List LaterEdit} (revision : IsRevision laters)
    (f : Font Float) :
    laters.foldl (change template factor width) f =
      needed.foldl (change template factor width) f := by
  have distinct : laters.dedup.Nodup := List.nodup_dedup laters
  have scaled : .rescale ∈ laters := List.count_pos_iff.mp (by rw [revision.rescale]; decide)
  have reduced : (laters.dedup.erase .boxWidth).Perm needed := by
    rw [List.perm_ext_iff_of_nodup (distinct.erase _) (by decide)]
    intro later
    rw [distinct.mem_erase_iff, List.mem_dedup]
    cases later <;> simp [needed, revision.boxOutline, revision.hollowNumerals, scaled,
      revision.resetWidths]
  rw [← reduced.foldl_eq f, ← foldl_dedup revision.rescale.le f]
  by_cases widened : .boxWidth ∈ laters.dedup
  · have reset : .resetWidths ∈ laters.dedup.erase .boxWidth := by
      rw [distinct.mem_erase_iff, List.mem_dedup]
      exact ⟨by decide, revision.resetWidths⟩
    have absorbs : ∀ f, change template factor width
        (change template factor width f .boxWidth) .resetWidths =
          change template factor width f .resetWidths := Font.resetWidths_setBoxWidth width width
    rw [(List.perm_cons_erase widened).foldl_eq f, foldl_cons_of_absorbed absorbs reset]
  · rw [List.erase_of_not_mem widened]

/-- All revisions have one result: they fail where there is no box, and make the same font where
there is one. -/
theorem IsRevision.run_eq {laters : List LaterEdit} (revision : IsRevision laters)
    (f : Font Float) :
    Edit.run (laters.map (withSettings template factor width)) f =
      if f.HasBox then .ok (needed.foldl (change template factor width) f)
      else .error (.boxGlyphMissing boxName) := by
  rw [run_withSettings, revision.foldl_eq]
  by_cases box : f.HasBox
  · rw [if_pos box, if_neg fun missing => missing.2 box]
  · rw [if_neg box, if_pos ⟨revision.boxOutline, box⟩]

end LaterEdit

/-- The edits behind the correction of names may be ordered and repeated freely, as long as
outlines are scaled once.  Two revisions both fail, for want of a box glyph, or make the same
font; and behind the correction of names either of them does what the standard revision does. -/
theorem revision_in_any_order (template : BoxTemplate) (factor width : Float)
    {first second : List LaterEdit} (revision : LaterEdit.IsRevision first)
    (revision' : LaterEdit.IsRevision second) (f : Font Float) :
    let edits := List.map (LaterEdit.withSettings template factor width)
    ((¬ f.HasBox ∧ Edit.run (edits first) f = .error (.boxGlyphMissing boxName) ∧
          Edit.run (edits second) f = .error (.boxGlyphMissing boxName)) ∨
        f.HasBox ∧ ∃ f', Edit.run (edits first) f = .ok f' ∧ Edit.run (edits second) f = .ok f') ∧
      Edit.run (.correctNames :: edits first) f =
        Edit.run (standardEdits template factor width) f := by
  intro edits
  constructor
  · rw [revision.run_eq, revision'.run_eq]
    by_cases box : f.HasBox
    · exact .inr ⟨box, _, if_pos box, if_pos box⟩
    · exact .inl ⟨box, if_neg box, if_neg box⟩
  · have standard : LaterEdit.IsRevision
        [.boxWidth, .boxOutline, .hollowNumerals, .rescale, .resetWidths] :=
      ⟨rfl, by decide, by decide, by decide⟩
    calc Edit.run (.correctNames :: edits first) f
        = Edit.run (edits first) f.correctNames := rfl
      _ = Edit.run (edits [.boxWidth, .boxOutline, .hollowNumerals, .rescale, .resetWidths])
            f.correctNames := by rw [revision.run_eq, standard.run_eq]
      _ = Edit.run (standardEdits template factor width) f := rfl

/-- Scaling first and replacing the box last comes to the same as doing everything twice but for
scaling, also for a width that is not a number. -/
theorem revision_in_any_order_of_two :
    let template := BoxTemplate.ofGlyph { name := "M", bounds := some ⟨0, 0, 1, 1⟩ }
    let f : Font Float :=
      { charMap := [], document := { name := "ttFont" }
        metrics := [⟨"SWM", 0, 0⟩, ⟨"A", 7, 0⟩]
        glyphs := [{ name := "SW250", contours := [[]] }, { name := "SWM" },
          { name := "A", bounds := some ⟨0, 0, 1, 1⟩ }] }
    let edits := List.map (LaterEdit.withSettings template 2 (0 / 0))
    let first : List LaterEdit := [.rescale, .resetWidths, .hollowNumerals, .boxOutline]
    let second : List LaterEdit := [.boxWidth, .boxOutline, .resetWidths, .hollowNumerals,
      .rescale, .boxWidth, .resetWidths, .hollowNumerals, .boxOutline]
    LaterEdit.IsRevision first ∧ LaterEdit.IsRevision second ∧ f.HasBox ∧
      ∃ f', Edit.run (edits first) f = .ok f' ∧ Edit.run (edits second) f = .ok f' := by
  intro template f edits first second
  have revision : LaterEdit.IsRevision first := ⟨by decide, by decide, by decide, by decide⟩
  have revision' : LaterEdit.IsRevision second := ⟨by decide, by decide, by decide, by decide⟩
  have box : f.HasBox := by simp [f, Font.HasBox, boxName]
  refine ⟨revision, revision', box, ?_⟩
  rcases (revision_in_any_order template 2 (0 / 0) revision revision' f).1 with
    ⟨missing, -⟩ | ⟨-, same⟩
  · exact absurd box missing
  · exact same

end SymbolFont
