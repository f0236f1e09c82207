/-
# The geometry of scaling

With exact numbers, scaling an outline moves the middle of its bounding box to the origin and
multiplies all distances by the factor.  So the box still holds the points that it held, and a
second scaling, which finds the box at the origin, comes to one by the product of the factors.
-/

import Mathlib.Algebra.Order.Field.Basic
import Mathlib.Data.Rat.Cast.Order
import Mathlib.Tactic.Linarith
import Mathlib.Tactic.Ring
import SymbolFont.Proofs.Glyph.Outline

namespace SymbolFont

namespace BBox

/-- How far the box reaches from left to right. -/
def width (b : BBox ℚ) : ℚ := b.xMax - b.xMin

/-- How far the box reaches from bottom to top. -/
def height (b : BBox ℚ) : ℚ := b.yMax - b.yMin

/-- Are the lower bounds below the upper ones? -/
structure Ordered (b : BBox ℚ) : Prop where
  x : b.xMin ≤ b.xMax
  y : b.yMin ≤ b.yMax

/-- Does the point lie in the box? -/
structure Contains (b : BBox ℚ) (p : Point ℚ) : Prop where
  left : b.xMin ≤ p.x
  right : p.x ≤ b.xMax
  below : b.yMin ≤ p.y
  above : p.y ≤ b.yMax

end BBox

namespace Glyph

/-! ## Coordinates -/

variable {center factor factor' v w : ℚ}

theorem scaleFrom_sub_scaleFrom :
    scaleFrom center factor v - scaleFrom center factor w = (v - w) * factor := by
  unfold scaleFrom
  ring

theorem scaleFrom_le_scaleFrom (positive : 0 ≤ factor) (le : v ≤ w) :
    scaleFrom center factor v ≤ scaleFrom center factor w :=
  mul_le_mul_of_nonneg_right (sub_le_sub_right le center) positive

/-- The middle of what was scaled about the middle is the origin. -/
theorem middle_scaleFrom :
    (scaleFrom ((w + v) / 2) factor w + scaleFrom ((w + v) / 2) factor v) / 2 = 0 := by
  unfold scaleFrom
  ring

/-- Scaling about the origin what was scaled before multiplies the factors. -/
theorem scaleFrom_scaleFrom :
    scaleFrom 0 factor' (scaleFrom center factor v) = scaleFrom center (factor * factor') v := by
  unfold scaleFrom
  ring

end Glyph

/-! ## Boxes and points -/

section Scaled

open Glyph

variable (b : BBox ℚ) (factor factor' : ℚ)

/-- The point scaled about the middle of a box. -/
def Point.scaledIn (b : BBox ℚ) (factor : ℚ) (p : Point ℚ) : Point ℚ :=
  p.mapAxes (scaleFrom b.center.1 factor) (scaleFrom b.center.2 factor)

namespace BBox

/-- The box scaled about its middle. -/
def scaled (b : BBox ℚ) (factor : ℚ) : BBox ℚ :=
  b.mapAxes (scaleFrom b.center.1 factor) (scaleFrom b.center.2 factor)

@[simp] theorem center_scaled : (b.scaled factor).center = (0, 0) :=
  Prod.ext middle_scaleFrom middle_scaleFrom

theorem width_scaled : (b.scaled factor).width = b.width * factor := scaleFrom_sub_scaleFrom

theorem height_scaled : (b.scaled factor).height = b.height * factor := scaleFrom_sub_scaleFrom

theorem scaled_scaled : (b.scaled factor).scaled factor' = b.scaled (factor * factor') := by
  rw [scaled, center_scaled]
  simp only [scaled, mapAxes, scaleFrom_scaleFrom]

variable {b factor}

theorem Ordered.scaled (positive : 0 ≤ factor) (ordered : b.Ordered) :
    (b.scaled factor).Ordered :=
  ⟨scaleFrom_le_scaleFrom positive ordered.x, scaleFrom_le_scaleFrom positive ordered.y⟩

theorem Contains.scaled {p : Point ℚ} (positive : 0 ≤ factor) (contains : b.Contains p) :
    (b.scaled factor).Contains (p.scaledIn b factor) where
  left := scaleFrom_le_scaleFrom positive contains.left
  right := scaleFrom_le_scaleFrom positive contains.right
  below := scaleFrom_le_scaleFrom positive contains.below
  above := scaleFrom_le_scaleFrom positive contains.above

end BBox

theorem Point.scaledIn_scaledIn (p : Point ℚ) :
    (p.scaledIn b factor).scaledIn (b.scaled factor) factor' =
      p.scaledIn b (factor * factor') := by
  unfold scaledIn
  rw [BBox.center_scaled]
  simp only [mapAxes, scaleFrom_scaleFrom]

end Scaled

/-! ## Glyphs -/

namespace Glyph

variable {g : Glyph ℚ} {b : BBox ℚ} (factor factor' : ℚ)

theorem scaleOutline_of_boxed (boxed : g.bounds = some b) :
    g.scaleOutline factor =
      { g.mapPoints (Point.scaledIn b factor) with bounds := some (b.scaled factor) } := by
  simp only [scaleOutline, boxed]
  rfl

theorem scaleOutline_of_unboxed (unboxed : g.bounds = none) : g.scaleOutline factor = g := by
  simp only [scaleOutline, unboxed]

theorem points_scaleOutline (boxed : g.bounds = some b) :
    (g.scaleOutline factor).points = g.points.map (Point.scaledIn b factor) := by
  rw [scaleOutline_of_boxed factor boxed]
  exact List.map_flatten.symm

/-- Two scalings are one by the product of the factors. -/
theorem scaleOutline_scaleOutline (g : Glyph ℚ) :
    (g.scaleOutline factor).scaleOutline factor' = g.scaleOutline (factor * factor') := by
  cases boxed : g.bounds with
  | none => rw [scaleOutline_of_unboxed factor boxed, scaleOutline_of_unboxed factor' boxed,
      scaleOutline_of_unboxed _ boxed]
  | some b =>
      have again : (g.scaleOutline factor).bounds = some (b.scaled factor) := by
        rw [scaleOutline_of_boxed factor boxed]
      rw [scaleOutline_of_boxed factor' again, scaleOutline_of_boxed factor boxed,
        scaleOutline_of_boxed (factor * factor') boxed]
      simp only [mapPoints, List.map_map, Function.comp_def, BBox.scaled_scaled,
        Point.scaledIn_scaledIn]

theorem rescale_rescale (g : Glyph ℚ) :
    (g.rescale factor).rescale factor' = g.rescale (factor * factor') := by
  have cls : (g.scaleOutline factor).cls = g.cls :=
    congrArg GlyphClass.of (name_scaleOutline factor g)
  rw [rescale_eq factor g, rescale_eq _ g]
  by_cases scaled : g.cls.isScaled = true
  · rw [if_pos scaled, if_pos scaled, rescale_eq, cls, if_pos scaled, scaleOutline_scaleOutline]
  · rw [if_neg scaled, if_neg scaled, rescale_eq, if_neg scaled]

end Glyph

theorem Font.rescale_rescale (factor factor' : ℚ) (f : Font ℚ) :
    (f.rescale factor).rescale factor' = f.rescale (factor * factor') := by
  simp only [rescale, List.map_map, Function.comp_def, Glyph.rescale_rescale]

/-! ## Scaling is a similarity -/

/-- What an outline with a bounding box has become when it is the same shape in another size,
about the origin. -/
structure Glyph.Resized (factor : ℚ) (before after : Glyph ℚ) (box box' : BBox ℚ) : Prop where
  bounds : after.bounds = some box'
  center : box'.center = (0, 0)
  width : box'.width = box.width * factor
  height : box'.height = box.height * factor
  /-- There are as many contours as before, with as many points. -/
  sizes : after.contours.map List.length = before.contours.map List.length
  /-- Points are the factor times as far from one another. -/
  distance : ∀ (i j : Nat) (p q p' q' : Point ℚ),
    before.points[i]? = some p → before.points[j]? = some q →
    after.points[i]? = some p' → after.points[j]? = some q' →
    p'.x - q'.x = (p.x - q.x) * factor ∧ p'.y - q'.y = (p.y - q.y) * factor
  /-- Points that lay in the box still do, unless they are mirrored. -/
  inside : 0 ≤ factor → box.Ordered → (∀ p ∈ before.points, box.Contains p) →
    box'.Ordered ∧ ∀ p ∈ after.points, box'.Contains p

theorem Glyph.resized_scaleOutline (factor : ℚ) {g : Glyph ℚ} {box : BBox ℚ}
    (boxed : g.bounds = some box) :
    Resized factor g (g.scaleOutline factor) box (box.scaled factor) := by
  have points := points_scaleOutline factor boxed
  constructor
  case bounds => rw [scaleOutline_of_boxed factor boxed]
  case center => exact box.center_scaled factor
  case width => exact box.width_scaled factor
  case height => exact box.height_scaled factor
  case sizes =>
    rw [scaleOutline_of_boxed factor boxed]
    simp only [mapPoints, List.map_map, Function.comp_def, List.length_map]
  case distance =>
    intro i j p q p' q' at_i at_j at_i' at_j'
    rw [points, List.getElem?_map, at_i] at at_i'
    rw [points, List.getElem?_map, at_j] at at_j'
    obtain rfl := Option.some.inj at_i'
    obtain rfl := Option.some.inj at_j'
    exact ⟨scaleFrom_sub_scaleFrom, scaleFrom_sub_scaleFrom⟩
  case inside =>
    intro positive ordered contains
    refine ⟨ordered.scaled positive, fun p' mem => ?_⟩
    rw [points] at mem
    obtain ⟨p, p_mem, rfl⟩ := List.mem_map.mp mem
    exact (contains p p_mem).scaled positive

/-- Scaling with exact numbers: an outline with a bounding box becomes the same shape about the
origin, whatever its class; two scalings are one by the product of the factors; and in a font
this is done to the glyphs of scaled classes, so the same goes for fonts. -/
theorem scaling_is_similarity (factor factor' : ℚ) :
    (∀ (g : Glyph ℚ) (box : BBox ℚ), g.bounds = some box →
      ∃ box', Glyph.Resized factor g (g.scaleOutline factor) box box') ∧
    (∀ g : Glyph ℚ,
      (g.scaleOutline factor).scaleOutline factor' = g.scaleOutline (factor * factor')) ∧
    (∀ g : Glyph ℚ,
      g.rescale factor = if g.cls.isScaled then g.scaleOutline factor else g) ∧
    ∀ f : Font ℚ, (f.rescale factor).rescale factor' = f.rescale (factor * factor') :=
  ⟨fun _ _ boxed => ⟨_, Glyph.resized_scaleOutline factor boxed⟩,
    Glyph.scaleOutline_scaleOutline factor factor', Glyph.rescale_eq factor,
    Font.rescale_rescale factor factor'⟩

/-- A triangle that does not touch the middle of its box, which is far from the origin. -/
def triangle : Glyph ℚ where
  name := "A"
  bounds := some ⟨100, -200, 300, 0⟩
  contours := [[{ x := 100, y := -200, onCurve := true }, { x := 300, y := -200, onCurve := true },
    { x := 100, y := 0, onCurve := true }]]

/-- The triangle is moved to the origin with its box. -/
theorem scaling_is_similarity_of_triangle :
    triangle.bounds = some ⟨100, -200, 300, 0⟩ ∧ (0 : ℚ) ≤ 9 / 100 ∧
      (⟨100, -200, 300, 0⟩ : BBox ℚ).Ordered ∧
      (∀ p ∈ triangle.points, (⟨100, -200, 300, 0⟩ : BBox ℚ).Contains p) ∧
      ∃ box', (triangle.rescale (9 / 100)).bounds = some box' ∧ box'.center = (0, 0) ∧
        box'.width = 18 ∧ box'.height = 18 ∧ box'.Ordered ∧
        ∀ p ∈ (triangle.rescale (9 / 100)).points, box'.Contains p := by
  have boxed : triangle.bounds = some ⟨100, -200, 300, 0⟩ := rfl
  have positive : (0 : ℚ) ≤ 9 / 100 := by norm_num
  have ordered : (⟨100, -200, 300, 0⟩ : BBox ℚ).Ordered := ⟨by norm_num, by norm_num⟩
  have contains : ∀ p ∈ triangle.points, (⟨100, -200, 300, 0⟩ : BBox ℚ).Contains p := by
    intro p mem
    simp only [triangle, Glyph.points, List.flatten_cons, List.flatten_nil, List.append_nil,
      List.mem_cons, List.not_mem_nil, or_false] at mem
    rcases mem with rfl | rfl | rfl <;> constructor <;> norm_num
  obtain ⟨similar, -, gate, -⟩ := scaling_is_similarity (9 / 100) 1
  have scaled : triangle.rescale (9 / 100) = triangle.scaleOutline (9 / 100) := by
    rw [gate, if_pos (by decide)]
  obtain ⟨box', resized⟩ := similar triangle _ boxed
  obtain ⟨ordered', contains'⟩ := resized.inside positive ordered contains
  rw [scaled]
  refine ⟨boxed, positive, ordered, contains, box', resized.bounds, resized.center,
    resized.width.trans ?_, resized.height.trans ?_, ordered', contains'⟩
  · norm_num [BBox.width]
  · norm_num [BBox.height]

end SymbolFont
