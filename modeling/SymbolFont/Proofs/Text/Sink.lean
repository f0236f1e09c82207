/-
# What a sink takes

However the pieces are cut, a sink takes the front of all that is written that fits into its
room, and nothing is refused if all of it does.
-/

import Mathlib.Tactic.Common
import SymbolFont.Proofs.Markup.Encoding
import SymbolFont.Text.Sink

namespace SymbolFont.Text

/-- A sink takes what fits of all pieces together. -/
theorem deliver_eq (room : Nat) (pieces : List (List UInt8)) :
    deliver room pieces =
      if pieces.flatten.length ≤ room then
        ⟨pieces.flatten, some (room - pieces.flatten.length)⟩
      else ⟨pieces.flatten.take room, none⟩ := by
  induction pieces generalizing room with
  | nil => simp [deliver]
  | cons piece pieces ih =>
      simp only [deliver, List.flatten_cons, List.length_append]
      by_cases fits : piece.length ≤ room
      · rw [if_pos fits, ih]
        by_cases rest : pieces.flatten.length ≤ room - piece.length
        · rw [if_pos rest, if_pos (by omega), Nat.sub_sub]
        · rw [if_neg rest, if_neg (by omega), List.take_append, List.take_of_length_le fits]
      · rw [if_neg fits, if_neg (by omega), List.take_append_of_le_length (by omega)]

/-! ## Texts -/

theorem bytesOf_append (s t : String) : bytesOf (s ++ t) = bytesOf s ++ bytesOf t := by
  simp only [bytesOf, Markup.toList_toUTF8, String.toList_append, List.flatMap_append]

theorem flatten_map_bytesOf (pieces : List String) :
    (pieces.map bytesOf).flatten = bytesOf (String.join pieces) := by
  simp only [bytesOf, Markup.toList_toUTF8, String.toList_join, List.flatMap_assoc,
    List.flatten_eq_flatMap, List.flatMap_map, id_eq]

/-- A sink takes what fits of a text, piece by piece. -/
theorem deliverText_eq (room : Nat) (pieces : List String) :
    deliverText room pieces =
      if (bytesOf (String.join pieces)).length ≤ room then
        ⟨bytesOf (String.join pieces), some (room - (bytesOf (String.join pieces)).length)⟩
      else ⟨(bytesOf (String.join pieces)).take room, none⟩ := by
  rw [deliverText, deliver_eq, flatten_map_bytesOf]

/-- What a sink has taken of a text is the front of it. -/
theorem taken_deliverText (room : Nat) (pieces : List String) :
    (deliverText room pieces).taken = (bytesOf (String.join pieces)).take room := by
  rw [deliverText_eq]
  split <;> rename_i fits
  · exact (List.take_of_length_le fits).symm
  · rfl

/-- A sink takes a text if it has room for all of it. -/
theorem isComplete_deliverText (room : Nat) (pieces : List String) :
    (deliverText room pieces).isComplete = true ↔
      (bytesOf (String.join pieces)).length ≤ room := by
  rw [deliverText_eq]
  split <;> rename_i fits
  · exact iff_of_true rfl fits
  · exact iff_of_false Bool.false_ne_true fits

end SymbolFont.Text
