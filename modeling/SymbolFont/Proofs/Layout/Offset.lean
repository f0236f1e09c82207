/-
# Offsets of any size

Whatever integers stand behind the markers of the two glyphs, the offset of a rule is their exact
distance from the middle of the grid.  An integer whose distance does not fit into 32 bits makes the
rule an error; none wraps around.  The lines of the rule tell the offset of every target in decimal.
-/

import SymbolFont.Proofs.Layout.Coordinate
import SymbolFont.Proofs.Layout.Listing

namespace SymbolFont

/-- A decimal integer has one value. -/
theorem Text.IsDecimal.unique {cs : List Char} {n m : Int} (first : Text.IsDecimal cs n)
    (second : Text.IsDecimal cs m) : n = m := by
  rw [← Text.integer?_eq_some_iff] at first second
  exact Option.some.inj (first.symm.trans second)

/-- The marker with the text of an integer behind it is that coordinate, if it is within bounds. -/
theorem isCoordinate_marked_iff {least n a : Int} {plus : Bool} {zeros : Nat} :
    IsCoordinate least (extensionMarker ++ Text.decimalText plus zeros a) n ↔
      n = a ∧ least ≤ a ∧ a ≤ 2147483647 := by
  have decimal := Text.isDecimal_decimalText plus zeros a
  rw [IsCoordinate, exists_isNumbered_append_iff (by decide)]
  constructor
  · rintro ⟨read, bounds⟩
    obtain rfl := read.unique decimal
    exact ⟨rfl, bounds⟩
  · rintro ⟨rfl, bounds⟩
    exact ⟨decimal, bounds⟩

namespace PositioningRule

/-- The offset of a rule is exact, or there is no rule: with integers of any size behind the
markers, however they are written, a rule is made exactly if both distances from the middle fit into
32 bits, and the first that does not is the error.  Each target has a line with both of them. -/
theorem exact_offset (name : String) (first : Target) (rest : List Target) (direction : Direction)
    (a b : Int) (plus plus' : Bool) (zeros zeros' : Nat) :
    let right := extensionMarker ++ Text.decimalText plus zeros a
    let up := extensionMarker ++ Text.decimalText plus' zeros' b
    let rule : PositioningRule :=
      { name, targets := first :: rest, context := (right, up), offset := (a - 750, 750 - b) }
    let line (lead : String) (target : Target) : String :=
      lead ++ target.render ++ " BY POS DX " ++ Text.decimalText false 0 (a - 750) ++ " DY " ++
        Text.decimalText false 0 (750 - b) ++ " END_POS\n"
    make name (first :: rest) (right, up) =
        (if -2147482898 ≤ a ∧ a ≤ 2147483647 then
          if -2147482897 ≤ b ∧ b ≤ 2147483647 then .ok rule
          else .error (.invalidContext name up)
        else .error (.invalidContext name right)) ∧
      (rule.withDirection direction).lines =
        [ "DEF_LOOKUP \"" ++ name ++ "\" PROCESS_BASE PROCESS_MARKS ALL DIRECTION " ++
            direction.name ++ "\n",
          "IN_CONTEXT\n", " RIGHT GLYPH \"" ++ right ++ "\"\n", " RIGHT GLYPH \"" ++ up ++ "\"\n",
          "END_CONTEXT\n", "AS_POSITION\n", line "ADJUST_SINGLE " first ] ++
        rest.map (line " ") ++ [ "END_ADJUST\n", "END_POSITION\n" ] := by
  intro right up rule line
  have targeted : first :: rest ≠ [] := List.cons_ne_nil first rest
  refine ⟨?_, ?_⟩
  · split_ifs with a_fits b_fits
    · exact make_of_coordinates targeted (isCoordinate_marked_iff.mpr ⟨rfl, a_fits⟩)
        (isCoordinate_marked_iff.mpr ⟨rfl, b_fits⟩)
    · refine make_of_not_up targeted (isCoordinate_marked_iff.mpr ⟨rfl, a_fits⟩) ?_
      rintro ⟨n, coordinate⟩
      exact b_fits (isCoordinate_marked_iff.mp coordinate).2
    · refine make_of_not_right targeted ?_
      rintro ⟨n, coordinate⟩
      exact a_fits (isCoordinate_marked_iff.mp coordinate).2
  · have adjusted : adjustLines rule.offset "ADJUST_SINGLE " (first :: rest) =
        line "ADJUST_SINGLE " first :: rest.map (line " ") := by
      simp only [adjustLines_cons, line, adjustment, Text.decimalText_plain, String.append_assoc]
      rfl
    show _ ++ adjustLines rule.offset "ADJUST_SINGLE " (first :: rest) ++ _ = _
    rw [adjusted]
    rfl

end PositioningRule

end SymbolFont
