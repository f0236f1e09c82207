/-
# Sinks with limited room

Output is produced as a sequence of pieces, each written in full or not at all as far as
its writer can tell.  A sink with limited room takes the bytes that fit and refuses the
rest; whoever writes stops at the first refusal.
-/

namespace SymbolFont.Text

/-- What has become of a sequence of writes. -/
structure Delivery where
  /-- The bytes that the sink took. -/
  taken : List UInt8
  /-- The room that is left, or nothing once a write has been refused. -/
  room : Option Nat
  deriving DecidableEq, Repr

/-- Did the sink take everything? -/
def Delivery.isComplete (d : Delivery) : Bool := d.room.isSome

/-- Write the pieces to a sink with the given room, up to the first that does not fit;
of that one the sink takes what it can. -/
def deliver : Nat → List (List UInt8) → Delivery
  | room, [] => ⟨[], some room⟩
  | room, piece :: pieces =>
      if piece.length ≤ room then
        let rest := deliver (room - piece.length) pieces
        ⟨piece ++ rest.taken, rest.room⟩
      else ⟨piece.take room, none⟩

/-- The bytes of a text. -/
def bytesOf (text : String) : List UInt8 := text.toUTF8.toList

/-- Write pieces of text to a sink with the given room. -/
def deliverText (room : Nat) (pieces : List String) : Delivery :=
  deliver room (pieces.map bytesOf)

end SymbolFont.Text
