/-
# Classes and names

Only one name is that of the box glyph, so the class of boxes can be told from the name
alone.  So can whether a glyph belongs to the extension glyphs: their names hold the marker.
-/

import Mathlib.Tactic.Common
import SymbolFont.Glyph.Class

namespace SymbolFont.GlyphClass

/-- A glyph is a box exactly if it bears the name of the box glyph. -/
theorem of_eq_box_iff (name : String) : GlyphClass.of name = .box ↔ name = boxName := by
  constructor
  · intro isBox
    by_contra other
    unfold GlyphClass.of at isBox
    split_ifs at isBox
  · intro named
    subst named
    decide

@[simp]
theorem of_boxName : GlyphClass.of boxName = .box := (of_eq_box_iff boxName).mpr rfl

/-- A number has its marker. -/
theorem hasMarker_of_hasNumeral {cs : List Char} (numeral : hasNumeral cs = true) :
    hasMarker cs = true := by
  induction cs using hasNumeral.induct with
  | case1 rest ih => rfl
  | case2 c rest no_marker ih =>
      rw [hasNumeral] at numeral
      · rw [hasMarker]
        · exact ih numeral
        · exact no_marker
      · exact no_marker
  | case3 => exact absurd numeral (by decide)

/-- Looking for the marker finds it wherever it stands. -/
theorem hasMarker_iff_infix {cs : List Char} :
    hasMarker cs = true ↔ extensionMarker.toList <:+: cs := by
  induction cs using hasMarker.induct with
  | case1 rest => exact ⟨fun _ => ⟨[], rest, rfl⟩, fun _ => rfl⟩
  | case2 c rest no_marker ih =>
      have not_front : ¬ extensionMarker.toList <+: c :: rest := by
        rintro ⟨behind, front⟩
        have split : c = 'S' ∧ rest = 'W' :: behind := by
          injection front with first others
          exact ⟨first.symm, others.symm⟩
        exact no_marker behind split.1 split.2
      rw [hasMarker, ih, List.infix_cons_iff]
      · exact ⟨.inr, fun found => found.resolve_left not_front⟩
      · exact no_marker
  | case3 => decide

/-- The extension glyphs are those whose names hold the marker. -/
theorem isExtension_of (name : String) :
    (GlyphClass.of name).isExtension = hasMarker name.toList := by
  unfold GlyphClass.of
  split_ifs with reserved box numeral marker
  · have unmarked : ∀ n ∈ reservedNames, hasMarker n.toList = false := by decide
    exact (unmarked name (List.contains_iff_mem.mp reserved)).symm
  · subst box
    rfl
  · exact (hasMarker_of_hasNumeral numeral).symm
  · exact marker.symm
  · simpa [isExtension] using marker

/-- Outlines are scaled of the two classes that have no meaning of their own. -/
theorem isScaled_iff {c : GlyphClass} : c.isScaled = true ↔ c = .base ∨ c = .extension := by
  cases c <;> simp [isScaled]

end SymbolFont.GlyphClass
