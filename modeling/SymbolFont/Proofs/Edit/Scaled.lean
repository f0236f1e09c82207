/-
# Which outlines are scaled

Of a class whose outlines are scaled, a glyph is scaled exactly if it has a bounding box, since
it is scaled about the middle of it.  The box is read apart from the contours and may be missing
although there are some.  Such a glyph keeps its size beside all others, and is not counted
with them.
-/

import SymbolFont.Edit.Basic
import SymbolFont.Proofs.Font.Defects
import SymbolFont.Proofs.Glyph.Class
import SymbolFont.Proofs.Glyph.Outline

namespace SymbolFont

open Markup

/-! ## Glyphs that are scaled -/

/-- Is the second glyph the first one with its points moved: to where they are from the centre,
times the factor? -/
structure Glyph.ScaledAbout (center : Float × Float) (factor : Float)
    (before after : Glyph Float) : Prop where
  name : after.name = before.name
  other : after.other = before.other
  contours : after.contours = before.contours.map (List.map fun p =>
    { p with x := (p.x - center.1) * factor, y := (p.y - center.2) * factor })

/-- What scaling makes of a glyph that was read from the element.  A glyph that is scaled is
counted. -/
structure Glyph.ScaledIfBoxed (factor : Float) (e : Element) (before after : Glyph Float) :
    Prop where
  counted_iff : before.isScalable = true ↔
    (before.cls = .base ∨ before.cls = .extension) ∧ e.Has "xMin"
  scaled : before.isScalable = true → ∃ box, BBox.ofElement e = .ok box ∧
    ScaledAbout ((box.xMax + box.xMin) / 2, (box.yMax + box.yMin) / 2) factor before after
  kept : before.isScalable = false → after = before

namespace Glyph

variable {e : Element} {g : Glyph Float}

/-- The bounding box of a glyph is what its element has for one, if its first bound is there. -/
theorem bounds_of_readBounds {bounds : Option (BBox Float)} (read : readBounds e = .ok bounds) :
    (e.Has "xMin" ∧ ∃ box, BBox.ofElement e = .ok box ∧ bounds = some box) ∨
      (¬ e.Has "xMin" ∧ bounds = none) := by
  unfold readBounds at read
  by_cases there : (e.attr? "xMin").isSome
  · rw [if_pos there] at read
    obtain ⟨box, box_read, same⟩ := exists_of_map_eq_ok read
    exact .inl ⟨Option.isSome_iff_exists.mp there, box, box_read, same.symm⟩
  · rw [if_neg there] at read
    cases read
    exact .inr ⟨fun has => there (Option.isSome_iff_exists.mpr has), rfl⟩

theorem isScalable_iff :
    g.isScalable = true ↔ (g.cls = .base ∨ g.cls = .extension) ∧ g.bounds.isSome = true := by
  rw [isScalable, Bool.and_eq_true, GlyphClass.isScaled_iff]

/-- A glyph that was read can be scaled if its class is one that is scaled and its element has
a bounding box. -/
theorem isScalable_iff_of_ofElement (read : ofElement e = .ok g) :
    g.isScalable = true ↔ (g.cls = .base ∨ g.cls = .extension) ∧ e.Has "xMin" := by
  obtain ⟨-, bounds_read, -⟩ := ofElement_eq_ok.mp read
  rw [isScalable_iff]
  rcases bounds_of_readBounds bounds_read with ⟨has, box, -, boxed⟩ | ⟨lacks, unboxed⟩
  · simp [boxed, has]
  · simp [unboxed, lacks]

theorem rescale_of_not_isScalable (factor : Float) (fixed : g.isScalable = false) :
    g.rescale factor = g := by
  by_cases scaled : g.cls.isScaled = true
  · have unboxed : g.bounds = none := by simpa [isScalable, scaled] using fixed
    exact rescale_of_unboxed factor unboxed
  · exact rescale_of_not_scaled factor (Bool.eq_false_iff.mpr scaled)

/-- Scaling goes by the bounding box that a glyph was read with. -/
theorem scaledIfBoxed_of_ofElement (read : ofElement e = .ok g) (factor : Float) :
    ScaledIfBoxed factor e g (g.rescale factor) := by
  refine ⟨isScalable_iff_of_ofElement read, fun scalable => ?_, rescale_of_not_isScalable factor⟩
  obtain ⟨-, has⟩ := (isScalable_iff_of_ofElement read).mp scalable
  obtain ⟨-, bounds_read, -⟩ := ofElement_eq_ok.mp read
  obtain ⟨-, box, box_read, boxed⟩ | ⟨lacks, -⟩ := bounds_of_readBounds bounds_read
  · have scaled : g.cls.isScaled = true := (Bool.and_eq_true_iff.mp scalable).1
    refine ⟨box, box_read, ?_⟩
    rw [rescale_of_scaled factor boxed scaled]
    exact ⟨rfl, rfl, rfl⟩
  · exact absurd has lacks

/-- A glyph that was read has as many contours as its element. -/
theorem contours_eq_nil_iff_of_ofElement (read : ofElement e = .ok g) :
    g.contours = [] ↔ e.named contourName = [] := by
  obtain ⟨-, -, contours_read, -⟩ := ofElement_eq_ok.mp read
  have lengths := (forall₂_of_mapM_eq_ok contours_read).length_eq
  rw [← List.length_eq_zero_iff, ← lengths, List.length_eq_zero_iff]

theorem attr?_name_of_ofElement (read : ofElement e = .ok g) : e.attr? "name" = some g.name :=
  Element.attr?_of_required (ofElement_eq_ok.mp read).1

/-- The outline of a glyph that was read is not left out exactly if its element has a bounding box,
or nothing to be scaled. -/
theorem isScalable_if_drawn_iff_of_ofElement (read : ofElement e = .ok g) :
    (∀ name, e.attr? "name" = some name →
        (GlyphClass.of name = .base ∨ GlyphClass.of name = .extension) →
        e.named contourName ≠ [] → e.Has "xMin") ↔
      ((g.cls = .base ∨ g.cls = .extension) → g.contours ≠ [] → g.isScalable = true) := by
  rw [isScalable_iff_of_ofElement read, Ne, Ne, contours_eq_nil_iff_of_ofElement read,
    attr?_name_of_ofElement read]
  constructor
  · exact fun boxed cls drawn => ⟨cls, boxed g.name rfl cls drawn⟩
  · rintro complete _ ⟨rfl⟩ cls drawn
    exact (complete cls drawn).2

end Glyph

/-! ## Fonts -/

/-- What goes for related items goes for all items of one list if it does for the other. -/
theorem forall_mem_iff_of_forall₂ {α β : Type} {R : α → β → Prop} {P : α → Prop} {Q : β → Prop}
    (same : ∀ a b, R a b → (P a ↔ Q b)) {as : List α} {bs : List β}
    (each : List.Forall₂ R as bs) : (∀ a ∈ as, P a) ↔ ∀ b ∈ bs, Q b := by
  induction each with
  | nil => simp
  | cons here _ ih => rw [List.forall_mem_cons, List.forall_mem_cons, same _ _ here, ih]

/-- Scaling the outlines of a font that was read from a document: of the glyphs whose classes are
scaled, those with a bounding box in the document are scaled about its middle, and counted, and
no others.  So no outline is left out exactly if the document has a bounding box for every glyph
of such a class that has contours. -/
theorem scaled_exactly_if_boxed {document outlines : Element} {f : Font Float}
    (read : Font.ofDocument document = .ok f)
    (found : document.child? Font.outlinesName = some outlines) (factor : Float) :
    let elements := outlines.named Glyph.elementName
    ∃ f', Edit.apply f (.rescale factor) = .ok f' ∧
      .rescaled (f.glyphs.countP Glyph.isScalable) factor ∈ Edit.report f (.rescale factor) ∧
      f.glyphs.length = elements.length ∧ f'.glyphs.length = f.glyphs.length ∧
      (∀ (i : Nat) (e : Element) (g g' : Glyph Float), elements[i]? = some e →
        f.glyphs[i]? = some g → f'.glyphs[i]? = some g' → Glyph.ScaledIfBoxed factor e g g') ∧
      ((∀ g ∈ f.glyphs, (g.cls = .base ∨ g.cls = .extension) → g.contours ≠ [] →
          g.isScalable = true) ↔
        ∀ e ∈ elements, ∀ name, e.attr? "name" = some name →
          (GlyphClass.of name = .base ∨ GlyphClass.of name = .extension) →
          e.named contourName ≠ [] → e.Has "xMin") := by
  intro elements
  obtain ⟨-, -, glyphs_read, -⟩ := Font.ofDocument_eq_ok.mp read
  obtain ⟨outlines', found', all⟩ := Font.readGlyphs_eq_ok.mp glyphs_read
  obtain rfl : outlines = outlines' := Option.some.inj (found.symm.trans found')
  have each := forall₂_of_mapM_eq_ok all
  refine ⟨f.rescale factor, rfl, List.mem_append_right _ List.mem_cons_self,
    each.length_eq.symm, List.length_map _, ?_, ?_⟩
  · intro i e g g' at_e at_g at_g'
    have glyph_read := Font.ofElement_of_ofDocument read found at_e at_g
    have scaled : (f.rescale factor).glyphs[i]? = some (g.rescale factor) := by
      simp only [Font.rescale, List.getElem?_map, at_g, Option.map_some]
    obtain rfl : g' = g.rescale factor := Option.some.inj (at_g'.symm.trans scaled)
    exact Glyph.scaledIfBoxed_of_ofElement glyph_read factor
  · refine (forall_mem_iff_of_forall₂ (fun e g glyph_read => ?_) each).symm
    exact Glyph.isScalable_if_drawn_iff_of_ofElement glyph_read

/-! ## A line with a box and one without -/

/-- A glyph that is a line, with these bounds. -/
def lineNode (name : String) (bounds : Attributes) : Node :=
  .element "TTGlyph" (("name", name) :: bounds)
    [.element "contour" []
      [.element "pt" [("x", "0"), ("y", "0")] [], .element "pt" [("x", "100"), ("y", "40")] []]]

/-- The line as a glyph. -/
def lineGlyph (name : String) (bounds : Option (BBox Float)) : Glyph Float where
  name
  bounds
  contours := [[{ x := 0, y := 0, onCurve := false }, { x := 100, y := 40, onCurve := false }]]

/-- A document with these glyphs. -/
def drawnDocument (glyphs : List Node) : Element where
  name := "ttFont"
  children :=
    [.element "cmap" [] [.element "cmap_format_12" [] []], .element "glyf" [] glyphs,
      .element "hmtx" [] []]

/-- The bounds of the line. -/
def lineBounds : Attributes := [("xMin", "0"), ("yMin", "0"), ("xMax", "100"), ("yMax", "40")]

/-- Of two equal lines, the one with a box is scaled about the middle of it. -/
theorem scaled_exactly_if_boxed_of_lines :
    let document := drawnDocument [lineNode "A" lineBounds, lineNode "B" []]
    let outlines : Element := ⟨"glyf", [], [lineNode "A" lineBounds, lineNode "B" []]⟩
    document.child? Font.outlinesName = some outlines ∧
      ∃ f f' a, Font.ofDocument document = .ok f ∧ Edit.apply f (.rescale 0.5) = .ok f' ∧
        f.glyphs = [lineGlyph "A" (some ⟨0, 0, 100, 40⟩), lineGlyph "B" none] ∧
        .rescaled 1 0.5 ∈ Edit.report f (.rescale 0.5) ∧ f'.glyphs = [a, lineGlyph "B" none] ∧
        a.contours =
          [[{ x := -25, y := -10, onCurve := false }, { x := 25, y := 10, onCurve := false }]] := by
  intro document outlines
  have found : document.child? Font.outlinesName = some outlines := by decide
  have glyphs_read : Font.glyphs <$> Font.ofDocument document =
      .ok [lineGlyph "A" (some ⟨0, 0, 100, 40⟩), lineGlyph "B" none] := by decide +kernel
  obtain ⟨f, read, glyphs⟩ := exists_of_map_eq_ok glyphs_read
  obtain ⟨f', applied, counted, -, size, each, -⟩ := scaled_exactly_if_boxed read found 0.5
  rw [glyphs] at size counted
  obtain ⟨a, b, pair⟩ := List.length_eq_two.mp size
  have first := each 0 _ _ a rfl (by rw [glyphs]; rfl) (by rw [pair]; rfl)
  have second := each 1 _ _ b rfl (by rw [glyphs]; rfl) (by rw [pair]; rfl)
  obtain ⟨box, box_read, scaled⟩ := first.scaled (by decide)
  obtain rfl : box = ⟨0, 0, 100, 40⟩ := by
    have expected : BBox.ofElement ⟨"TTGlyph", ("name", "A") :: lineBounds, []⟩ =
        .ok ⟨0, 0, 100, 40⟩ := by decide +kernel
    exact Except.ok.inj (box_read.symm.trans expected)
  refine ⟨found, f, f', a, read, applied, glyphs, counted, ?_, scaled.contours.trans ?_⟩
  · rw [pair, second.kept (by decide)]
  · decide +kernel

/-- No product with zero is a hundred, whatever the other factor. -/
theorem Number.mul_zero_ne_hundred (v : Float) : v * 0 ≠ 100 := by
  have product : v * 0 =
      .ofModel (Float.Model.pack (.mul .binary64 v.toModel.unpack (.zero .positive))) := by
    rw [← Number.unpack_zero]
    rfl
  have nothing (u : Float.Model.UnpackedFloat) :
      (∃ s, u.mul .binary64 (.zero .positive) = .zero s) ∨
        u.mul .binary64 (.zero .positive) = .notANumber := by
    cases u with
    | notANumber => exact .inr rfl
    | infinity s => exact .inr rfl
    | zero s => exact .inl ⟨_, rfl⟩
    | finite s m e positive => exact .inl ⟨_, rfl⟩
  rw [product]
  rcases nothing v.toModel.unpack with ⟨s, zero⟩ | undefined
  · rw [zero]
    cases s <;> decide
  · rw [undefined]
    decide

/-- A line without a box is a glyph of a scaled class with a contour, but no factor has it
counted or changed; and if the factor is zero, there is no centre that it would be scaled about. -/
theorem line_without_box_left_out :
    ∃ f g, Font.ofDocument (drawnDocument [lineNode "A" []]) = .ok f ∧ f.glyphs = [g] ∧
      g.cls = .base ∧ g.contours ≠ [] ∧
      (∀ factor, ∃ f', Edit.apply f (.rescale factor) = .ok f' ∧ f'.glyphs = [g] ∧
        f.glyphs.countP Glyph.isScalable = 0 ∧
        .rescaled 0 factor ∈ Edit.report f (.rescale factor)) ∧
      ¬ ∃ center, Glyph.ScaledAbout center 0 g (g.rescale 0) := by
  have glyphs_read : Font.glyphs <$> Font.ofDocument (drawnDocument [lineNode "A" []]) =
      .ok [lineGlyph "A" none] := by decide +kernel
  obtain ⟨f, read, glyphs⟩ := exists_of_map_eq_ok glyphs_read
  have kept (factor : Float) : (lineGlyph "A" none).rescale factor = lineGlyph "A" none :=
    Glyph.rescale_of_unboxed factor rfl
  have uncounted : f.glyphs.countP Glyph.isScalable = 0 := by
    rw [glyphs]
    decide
  refine ⟨f, lineGlyph "A" none, read, glyphs, by decide, by decide, fun factor => ?_, ?_⟩
  · refine ⟨f.rescale factor, rfl, ?_, uncounted, ?_⟩
    · rw [Font.rescale, glyphs, List.map_cons, kept, List.map_nil]
    · rw [← uncounted]
      exact List.mem_append_right _ List.mem_cons_self
  · rintro ⟨center, scaled⟩
    have contours := scaled.contours
    rw [kept] at contours
    simp only [lineGlyph, List.map_cons, List.map_nil, List.cons.injEq, Point.mk.injEq,
      and_true] at contours
    exact Number.mul_zero_ne_hundred _ contours.2.1.symm

end SymbolFont
