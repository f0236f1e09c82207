/-
# Edits of outlines, case by case

Whether a glyph loses its contours or is scaled depends on its class and, for scaling, on its
bounding box.  Each case is told here once, so that nothing about edits has to open them.
-/

import Mathlib.Tactic.Common
import SymbolFont.Edit.Outlines

namespace SymbolFont

namespace Glyph

section Scaling

variable {α : Type} [Add α] [Sub α] [Mul α] [Div α] [OfNat α 2]

/-- Scale the outline about the middle of its bounding box, whatever the class. -/
def scaleOutline (factor : α) (g : Glyph α) : Glyph α :=
  match g.bounds with
  | none => g
  | some bounds =>
      let fx := scaleFrom bounds.center.1 factor
      let fy := scaleFrom bounds.center.2 factor
      { g.mapPoints (Point.mapAxes fx fy) with bounds := some (bounds.mapAxes fx fy) }

theorem name_scaleOutline (factor : α) (g : Glyph α) : (g.scaleOutline factor).name = g.name := by
  unfold scaleOutline
  split <;> rfl

/-- The class decides whether an outline is scaled, and nothing else. -/
theorem rescale_eq (factor : α) (g : Glyph α) :
    g.rescale factor = if g.cls.isScaled then g.scaleOutline factor else g := by
  unfold rescale scaleOutline
  cases g.bounds with
  | none => exact (ite_self g).symm
  | some bounds => rfl

end Scaling

/-- Taking out contours leaves a number glyph without any, whether or not it had some. -/
theorem hollow_of_numeral {g : Glyph Float} (numeral : g.cls = .numeral) :
    (if g.isFilledNumeral then { g with contours := [] } else g) = { g with contours := [] } := by
  by_cases filled : g.isFilledNumeral
  · rw [if_pos filled]
  · have empty : g.contours = [] := by simpa [isFilledNumeral, numeral] using filled
    rw [if_neg filled, ← empty]

theorem hollow_of_not_numeral {g : Glyph Float} (other : g.cls ≠ .numeral) :
    (if g.isFilledNumeral then { g with contours := [] } else g) = g := by
  have kept : ¬ g.isFilledNumeral := by simp [isFilledNumeral, other]
  rw [if_neg kept]

/-- Outlines of the other three classes are not scaled. -/
theorem rescale_of_not_scaled {g : Glyph Float} (factor : Float)
    (unscaled : g.cls.isScaled = false) : g.rescale factor = g := by
  unfold rescale
  cases g.bounds with
  | none => rfl
  | some box => simp [unscaled]

/-- Outlines of the other two are, about the middle of the bounding box. -/
theorem rescale_of_scaled {g : Glyph Float} {box : BBox Float} (factor : Float)
    (boxed : g.bounds = some box) (scaled : g.cls.isScaled = true) :
    g.rescale factor =
      let fx := scaleFrom box.center.1 factor
      let fy := scaleFrom box.center.2 factor
      { g.mapPoints (Point.mapAxes fx fy) with bounds := some (box.mapAxes fx fy) } := by
  simp only [rescale, boxed, if_pos scaled]

/-- Without a bounding box nothing is scaled. -/
theorem rescale_of_unboxed {g : Glyph Float} (factor : Float) (unboxed : g.bounds = none) :
    g.rescale factor = g := by
  simp [rescale, unboxed]

/-- The name and the nodes around the contours are not touched by scaling. -/
theorem rescale_name (factor : Float) (g : Glyph Float) : (g.rescale factor).name = g.name := by
  unfold rescale
  split
  · rfl
  · split <;> rfl

theorem rescale_other (factor : Float) (g : Glyph Float) :
    (g.rescale factor).other = g.other := by
  unfold rescale
  split
  · rfl
  · split <;> rfl

theorem hollow_name (g : Glyph Float) :
    (if g.isFilledNumeral then { g with contours := [] } else g).name = g.name := by
  split <;> rfl

/-- Taking out contours a second time changes nothing. -/
theorem hollow_hollow (g : Glyph Float) :
    (let hollowed := if g.isFilledNumeral then { g with contours := [] } else g
      if hollowed.isFilledNumeral then { hollowed with contours := [] } else hollowed) =
      if g.isFilledNumeral then { g with contours := [] } else g := by
  by_cases filled : g.isFilledNumeral
  · simp only [if_pos filled]
    split <;> rfl
  · simp only [if_neg filled]

/-- No glyph is both scaled and left without contours, so these two may change places. -/
theorem hollow_rescale (factor : Float) (g : Glyph Float) :
    (if (g.rescale factor).isFilledNumeral then { g.rescale factor with contours := [] }
      else g.rescale factor) =
      rescale factor (if g.isFilledNumeral then { g with contours := [] } else g) := by
  have sameClass : (g.rescale factor).cls = g.cls := congrArg GlyphClass.of (rescale_name factor g)
  by_cases numeral : g.cls = .numeral
  · have unscaled : g.cls.isScaled = false := by rw [numeral]; rfl
    have unscaled' : ({ g with contours := [] } : Glyph Float).cls.isScaled = false := unscaled
    rw [rescale_of_not_scaled factor unscaled, hollow_of_numeral numeral,
      rescale_of_not_scaled factor unscaled']
  · rw [hollow_of_not_numeral numeral, hollow_of_not_numeral (sameClass ▸ numeral)]

end Glyph

end SymbolFont
