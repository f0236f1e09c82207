/-
# Programs that write

A program writes texts to a sink with limited room, and fails as soon as the sink refuses a part of
one.  Programs that do nothing but write are equal to writing a single text.  So it makes no
difference how loops and formatting cut what is written, and to tell what becomes of a program,
nothing but its text has to be known.
-/

import Mathlib.Tactic.Common
import SymbolFont.Proofs.Text.Sink

namespace SymbolFont.Text

/-- A sink in use. -/
structure Sink where
  /-- The bytes that it took. -/
  taken : List UInt8 := []
  /-- The number of bytes that it will still take. -/
  room : Nat
  deriving DecidableEq, Repr

namespace Sink

/-- Does a text fit into the room that is left? -/
def fits (sink : Sink) (text : String) : Bool := (bytesOf text).length ≤ sink.room

/-- The sink after taking what fits of a text. -/
def take (sink : Sink) (text : String) : Sink where
  taken := sink.taken ++ (bytesOf text).take sink.room
  room := sink.room - (bytesOf text).length

theorem fits_iff {sink : Sink} {text : String} :
    sink.fits text = true ↔ (bytesOf text).length ≤ sink.room := decide_eq_true_iff

theorem fits_append (sink : Sink) (s t : String) :
    sink.fits (s ++ t) = (sink.fits s && (sink.take s).fits t) := by
  rw [Bool.eq_iff_iff]
  simp only [Bool.and_eq_true, fits_iff, take, bytesOf_append, List.length_append]
  omega

theorem take_append (sink : Sink) (s t : String) :
    sink.take (s ++ t) = (sink.take s).take t := by
  simp only [take, bytesOf_append, List.take_append, List.append_assoc, List.length_append,
    Nat.sub_sub]

/-- A full sink takes no more. -/
theorem take_append_of_not_fits {sink : Sink} {s : String} (full : sink.fits s = false)
    (t : String) : sink.take (s ++ t) = sink.take s := by
  simp only [fits, decide_eq_false_iff_not, Nat.not_le] at full
  simp only [take, bytesOf_append, List.take_append_of_le_length (Nat.le_of_lt full),
    List.length_append, mk.injEq, true_and]
  omega

end Sink

/-- Programs that write to a sink and may fail.  What the sink took stays taken. -/
abbrev Writing (ε : Type) := ExceptT ε (StateM Sink)

section Writing

variable {ε α : Type}

/-- How a program ends, and the sink that it leaves. -/
def outcome (program : Writing ε α) (sink : Sink) : Except ε α × Sink := program.run.run sink

/-- Programs are the same if they end alike and leave the same sink. -/
theorem outcome_injective {program other : Writing ε α}
    (same : ∀ sink, outcome program sink = outcome other sink) : program = other :=
  funext same

/-- Write a text.  If the sink does not take all of it, the program fails. -/
def put (fault : ε) (text : String) : Writing ε Unit := do
  let sink ← get
  set (sink.take text)
  unless sink.fits text do throw fault

/-- Write a text in fragments. -/
def putAll (fault : ε) (fragments : List String) : Writing ε Unit := fragments.forM (put fault)

variable (fault : ε)

theorem outcome_put_bind (text : String) (next : Unit → Writing ε α) (sink : Sink) :
    outcome (put fault text >>= next) sink =
      if sink.fits text then outcome (next ()) (sink.take text)
      else (.error fault, sink.take text) := by
  -- The steps of `put` up to the last one always succeed.
  change outcome ((if sink.fits text then pure () else throw fault : Writing ε Unit) >>= next)
    (sink.take text) = _
  cases sink.fits text <;> rfl

theorem outcome_put (text : String) (sink : Sink) :
    outcome (put fault text) sink =
      (if sink.fits text then .ok () else .error fault, sink.take text) := by
  rw [← bind_pure (put fault text), outcome_put_bind]
  cases sink.fits text <;> rfl

/-! ## What a program writes -/

theorem put_empty : put fault "" = pure () := by
  refine outcome_injective fun sink => ?_
  have nothing : bytesOf "" = [] := by simp [bytesOf]
  have fits : sink.fits "" = true := by simp [Sink.fits, nothing]
  have left : sink.take "" = sink := by simp [Sink.take, nothing]
  rw [outcome_put, if_pos fits, left]
  rfl

/-- Writing two texts one after the other is writing both together. -/
theorem put_append (s t : String) : put fault (s ++ t) = (do put fault s; put fault t) := by
  refine outcome_injective fun sink => ?_
  rw [outcome_put, outcome_put_bind, Sink.fits_append]
  -- If the first text does not fit, the sink is full, and nothing of the second one gets into it.
  cases fits : sink.fits s
  · simp [Sink.take_append_of_not_fits fits]
  · simp [Sink.take_append, outcome_put]

/-- The program writes the pieces, and nothing else. -/
def Writes (program : Writing ε Unit) (pieces : List String) : Prop :=
  program = put fault (String.join pieces)

namespace Writes

variable {fault} {program next : Writing ε Unit} {pieces more : List String}

theorem nil : Writes fault (pure ()) [] := (put_empty fault).symm

theorem seq (first : Writes fault program pieces) (second : Writes fault next more) :
    Writes fault (do program; next) (pieces ++ more) := by
  rw [Writes, String.join_append, put_append, ← first, ← second]

/-- Only the text counts, and not how it is cut. -/
theorem congr (writes : Writes fault program pieces)
    (same : String.join pieces = String.join more) : Writes fault program more := by
  rw [Writes, ← same]
  exact writes

theorem forM_cons {write : α → Writing ε Unit} {a : α} {as : List α}
    (first : Writes fault (write a) pieces) (rest : Writes fault (as.forM write) more) :
    Writes fault ((a :: as).forM write) (pieces ++ more) := first.seq rest

/-- A loop writes what its rounds write. -/
theorem forM {write : α → Writing ε Unit} {pieces : α → List String}
    (round : ∀ a, Writes fault (write a) (pieces a)) (as : List α) :
    Writes fault (as.forM write) (as.flatMap pieces) := by
  induction as with
  | nil => exact nil
  | cons a as ih => exact forM_cons (round a) ih

end Writes

theorem writes_put (text : String) : Writes fault (put fault text) [text] := by
  rw [Writes, String.join_cons, String.join_nil, String.append_empty]

theorem writes_putAll (fragments : List String) :
    Writes fault (putAll fault fragments) fragments := by
  have loop := Writes.forM (writes_put fault) fragments
  rwa [List.flatMap_singleton'] at loop

/-- A program that only writes leaves the front of its text in the sink. -/
theorem Writes.outcome {fault : ε} {program : Writing ε Unit} {pieces : List String}
    (writes : Writes fault program pieces) (room : Nat) :
    outcome program { room } =
      let text := bytesOf (String.join pieces)
      (if text.length ≤ room then .ok () else .error fault,
        ⟨text.take room, room - text.length⟩) := by
  rw [writes, outcome_put]
  simp [Sink.fits, Sink.take]

end Writing

end SymbolFont.Text
