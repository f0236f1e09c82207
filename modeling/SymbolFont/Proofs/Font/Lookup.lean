/-
# Glyphs by name

Changing the first glyph of a name leaves the number of glyphs and all other glyphs alone, and
goes by names: how numbers are written does not matter to it.
-/

import SymbolFont.Font.Basic
import SymbolFont.Proofs.Glyph.Record

namespace SymbolFont

namespace Font

/-- Only the first glyph of the name is changed. -/
theorem getElem?_modifyGlyph (name : String) (change : Glyph Float → Glyph Float)
    (glyphs : List (Glyph Float)) (i : Nat) :
    (modifyGlyph name change glyphs)[i]? = glyphs[i]?.map fun g =>
      if g.name = name ∧ ∀ earlier ∈ glyphs.take i, earlier.name ≠ name then change g else g := by
  induction glyphs generalizing i with
  | nil => rfl
  | cons first rest ih =>
      by_cases hit : first.name = name
      · cases i with
        | zero => simp [modifyGlyph, hit]
        | succ i => simp [modifyGlyph, hit]
      · cases i with
        | zero => simp [modifyGlyph, hit]
        | succ i => simp [modifyGlyph, hit, ih]

theorem length_modifyGlyph (name : String) (change : Glyph Float → Glyph Float)
    (glyphs : List (Glyph Float)) :
    (modifyGlyph name change glyphs).length = glyphs.length := by
  induction glyphs with
  | nil => rfl
  | cons first rest ih =>
      rw [modifyGlyph]
      split
      · rfl
      · rw [List.length_cons, ih, List.length_cons]

/-- Behind a replacement there are the glyphs from before and the one put in. -/
theorem mem_modifyGlyph {name : String} {replacement g : Glyph Float} {glyphs : List (Glyph Float)}
    (mem : g ∈ modifyGlyph name (fun _ => replacement) glyphs) : g = replacement ∨ g ∈ glyphs := by
  induction glyphs with
  | nil => exact absurd mem List.not_mem_nil
  | cons first rest ih =>
      rw [modifyGlyph] at mem
      split at mem
      · rcases List.mem_cons.mp mem with here | later
        · exact .inl here
        · exact .inr (List.mem_cons_of_mem _ later)
      · rcases List.mem_cons.mp mem with rfl | later
        · exact .inr List.mem_cons_self
        · exact (ih later).imp id (List.mem_cons_of_mem _)

/-- Names stay the same if the glyph put in bears the name that it is put in for. -/
theorem map_name_modifyGlyph {name : String} {replacement : Glyph Float}
    (named : replacement.name = name) (glyphs : List (Glyph Float)) :
    (modifyGlyph name (fun _ => replacement) glyphs).map Glyph.name = glyphs.map Glyph.name := by
  induction glyphs with
  | nil => rfl
  | cons first rest ih =>
      rw [modifyGlyph]
      split
      · rename_i hit
        rw [List.map_cons, List.map_cons, named, hit]
      · rw [List.map_cons, List.map_cons, ih]

/-- A second time there is nothing left to replace. -/
theorem modifyGlyph_modifyGlyph {name : String} {replacement : Glyph Float}
    (named : replacement.name = name) (glyphs : List (Glyph Float)) :
    modifyGlyph name (fun _ => replacement) (modifyGlyph name (fun _ => replacement) glyphs) =
      modifyGlyph name (fun _ => replacement) glyphs := by
  induction glyphs with
  | nil => rfl
  | cons first rest ih =>
      by_cases hit : first.name = name
      · simp only [modifyGlyph, if_pos hit, if_pos named]
      · simp only [modifyGlyph, if_neg hit, ih]

/-- A change of all glyphs may come before or after, if it leaves names and the glyph put in
alone. -/
theorem modifyGlyph_map {name : String} {replacement : Glyph Float}
    {change : Glyph Float → Glyph Float} (names : ∀ g, (change g).name = g.name)
    (kept : change replacement = replacement) (glyphs : List (Glyph Float)) :
    modifyGlyph name (fun _ => replacement) (glyphs.map change) =
      (modifyGlyph name (fun _ => replacement) glyphs).map change := by
  induction glyphs with
  | nil => rfl
  | cons first rest ih =>
      rw [List.map_cons, modifyGlyph, modifyGlyph, names]
      split
      · rw [List.map_cons, kept]
      · rw [List.map_cons, ih]

/-- Putting a glyph in the place of the first of a name goes by names alone. -/
theorem map_asWritten_modifyGlyph (name : String) (replacement : Glyph Float)
    (glyphs : List (Glyph Float)) :
    (modifyGlyph name (fun _ => replacement) glyphs).map Glyph.asWritten =
      modifyGlyph name (fun _ => replacement.asWritten) (glyphs.map Glyph.asWritten) := by
  induction glyphs with
  | nil => rfl
  | cons first rest ih =>
      have kept : first.asWritten.name = first.name := rfl
      rw [List.map_cons, modifyGlyph, modifyGlyph, kept]
      split
      · rfl
      · rw [List.map_cons, ih]

end Font

end SymbolFont
