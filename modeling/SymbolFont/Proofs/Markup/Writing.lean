/-
# Writing documents event by event

The tree of a document is handed to an emitter event by event.  The emitter remembers the names of
the elements that are open, and it leaves a start tag open until it knows what comes next, since an
element without children is a single tag.  All that it has of a document at last is its pieces, so
a sink that fails has the front of the document; and which fault is reported tells whether it had
all but the line feed at the end.
-/

import Mathlib.Tactic.Common
import SymbolFont.Markup.Printer
import SymbolFont.Proofs.Markup.Node
import SymbolFont.Proofs.Text.Writing

namespace SymbolFont.Markup

open Text

/-! ## The program -/

/-- What an emitter is told about a tree. -/
inductive TreeEvent where
  | start (name : String) (attributes : Attributes)
  | stop
  | text (content : String)
  | comment (content : String)

/-- The state of an emitter between events. -/
structure Emitter where
  /-- The names of the open elements, the innermost one first. -/
  names : List String := []
  /-- Is the last start tag still open? -/
  tagOpen : Bool := false
  /-- Was the last event text? -/
  afterText : Bool := false

namespace Emitter

/-- The end of a start tag that is still open. -/
def pending (s : Emitter) : List String := if s.tagOpen then [">"] else []

/-- The line break in front of markup at the given depth. -/
def lineBreak (s : Emitter) (depth : Nat) : List String :=
  if s.afterText then [] else [newline depth]

/-- The fragments that are written for an event, and the state behind it, unless there is no
element to be closed. -/
def take? (s : Emitter) : TreeEvent → Option (List String × Emitter)
  | .start name attributes =>
      some (s.pending ++ s.lineBreak s.names.length ++ tagPieces name attributes,
        ⟨name :: s.names, true, false⟩)
  | .text content =>
      some (s.pending ++ [String.ofList (content.toList.flatMap escapeInText)],
        ⟨s.names, false, true⟩)
  | .comment content =>
      some (s.pending ++ s.lineBreak s.names.length ++ [commentPiece content],
        ⟨s.names, false, false⟩)
  | .stop =>
      match s.names with
      | [] => none
      | name :: names =>
          some (if s.tagOpen then [" />"]
            else s.lineBreak names.length ++ ["</" ++ name ++ ">"], ⟨names, false, false⟩)

end Emitter

/-- Programs that write through an emitter. -/
abbrev Emitting := StateT Emitter (Writing WriteFault)

/-- Hand an event to the emitter. -/
def emit (event : TreeEvent) : Emitting Unit := fun s =>
  match s.take? event with
  | some (fragments, next) => do
      putAll .markup fragments
      pure ((), next)
  | none => throw .markup

mutual

/-- Write a node. -/
def Node.write : Node → Emitting Unit
  | .element name attributes children => do
      emit (.start name attributes)
      Node.writeList children
      emit .stop
  | .text content => emit (.text content)
  | .comment content => emit (.comment content)

/-- Write sibling nodes. -/
def Node.writeList : List Node → Emitting Unit
  | [] => pure ()
  | node :: nodes => do
      Node.write node
      Node.writeList nodes

end

/-- Write a document.  The line feed at its end does not go through the emitter. -/
def Element.write (e : Element) : Writing WriteFault Unit := do
  put .markup declarationPiece
  e.toNode.write.run' {}
  put .lineEnd "\n"

/-! ## What is emitted -/

/-- From a state, the program writes the pieces and ends in another state. -/
def Emits (program : Emitting Unit) (s : Emitter) (pieces : List String) (next : Emitter) : Prop :=
  program.run s = (do put .markup (String.join pieces); pure ((), next))

section Emits

variable {program further : Emitting Unit} {s next last : Emitter} {pieces more : List String}

theorem Emits.pure (s : Emitter) : Emits (pure ()) s [] s := by
  rw [Emits, String.join_nil, put_empty]
  rfl

theorem Emits.seq (first : Emits program s pieces next) (second : Emits further next more last) :
    Emits (do program; further) s (pieces ++ more) last := by
  rw [Emits, StateT.run_bind, first, String.join_append, put_append]
  simp only [bind_assoc, pure_bind]
  rw [second]

theorem emits_emit {event : TreeEvent} (taken : s.take? event = some (pieces, next)) :
    Emits (emit event) s pieces next := by
  have written : putAll WriteFault.markup pieces = _ := writes_putAll _ pieces
  show (match s.take? event with | some (fragments, next) => _ | none => _) = _
  rw [taken, ← written]

theorem Emits.congr (emits : Emits program s pieces next) (same : pieces = more) :
    Emits program s more next := same ▸ emits

end Emits

namespace Emitter

/-- The state behind a node. -/
def behind (s : Emitter) (node : Node) : Emitter := ⟨s.names, false, node.isText⟩

/-- The end of a start tag that is still open when sibling nodes are written. -/
def pendingFor (s : Emitter) : List Node → List String
  | [] => []
  | _ :: _ => s.pending

theorem foldl_behind_cons (s : Emitter) (node : Node) (nodes : List Node) :
    (node :: nodes).foldl behind s = ⟨s.names, false, endsInText (node :: nodes)⟩ := by
  induction nodes generalizing s node with
  | nil => rfl
  | cons next nodes ih =>
      rw [List.foldl_cons, ih]
      rfl

end Emitter

/-- A node is written as its pieces, behind the end of a start tag that is still open. -/
def Node.IsEmitted (node : Node) : Prop := ∀ s : Emitter,
  Emits node.write s (s.pending ++ node.pieces s.names.length s.afterText) (s.behind node)

/-- Sibling nodes are written as their pieces, behind the end of a start tag that is still open. -/
def Node.AreEmitted (nodes : List Node) : Prop := ∀ s : Emitter,
  Emits (Node.writeList nodes) s
    (s.pendingFor nodes ++ Node.piecesList s.names.length s.afterText nodes)
    (nodes.foldl Emitter.behind s)

namespace Node

theorem isEmitted_text (content : String) : (Node.text content).IsEmitted := by
  intro s
  rw [write, pieces]
  exact emits_emit rfl

theorem isEmitted_comment (content : String) : (Node.comment content).IsEmitted := by
  intro s
  rw [write, pieces]
  exact (emits_emit rfl).congr (List.append_assoc _ _ _)

/-- The start tag of an element is ended by its first child, or else by its end. -/
theorem isEmitted_element {children : List Node} (inner : AreEmitted children) (name : String)
    (attributes : Attributes) : (Node.element name attributes children).IsEmitted := by
  intro s
  have start : Emits (emit (.start name attributes)) s _ _ := emits_emit rfl
  -- The children find the start tag open; what is behind them depends on whether there are any.
  have within := inner ⟨name :: s.names, true, false⟩
  rw [write]
  cases children with
  | nil =>
      have stop : Emits (emit .stop) ⟨name :: s.names, true, false⟩ _ _ := emits_emit rfl
      refine (start.seq (within.seq stop)).congr ?_
      simp [pieces, piecesList, Emitter.pendingFor, Emitter.lineBreak]
  | cons child children =>
      rw [Emitter.foldl_behind_cons] at within
      have stop : Emits (emit .stop)
        ⟨name :: s.names, false, endsInText (child :: children)⟩ _ _ := emits_emit rfl
      refine (start.seq (within.seq stop)).congr ?_
      simp [pieces, piecesList, Emitter.pendingFor, Emitter.lineBreak, Emitter.pending]

theorem AreEmitted.cons {node : Node} {nodes : List Node} (here : node.IsEmitted)
    (rest : AreEmitted nodes) : AreEmitted (node :: nodes) := by
  intro s
  have settled : (s.behind node).pendingFor nodes = [] := by cases nodes <;> rfl
  have behind := rest (s.behind node)
  rw [settled, List.nil_append] at behind
  rw [writeList, piecesList, ← List.append_assoc]
  exact (here s).seq behind

theorem areEmitted (nodes : List Node) : AreEmitted nodes := by
  induction nodes using list_induction with
  | nil => exact Emits.pure
  | text content nodes ih => exact .cons (isEmitted_text content) ih
  | comment content nodes ih => exact .cons (isEmitted_comment content) ih
  | element name attributes children nodes inner ih =>
      exact .cons (isEmitted_element inner name attributes) ih

end Node

namespace Element

/-- The text of a document up to the end of its root. -/
def markup (e : Element) : String := String.join e.pieces

/-- Written event by event, a document has the text of its pieces, and then a line feed. -/
theorem write_eq (e : Element) :
    e.write = (do put .markup e.markup; put .lineEnd "\n") := by
  have emitted : Emits e.toNode.write {} (e.toNode.pieces 0 false) _ :=
    Node.isEmitted_element (Node.areEmitted e.children) e.name e.attributes {}
  rw [write, StateT.run'_eq, emitted, markup, pieces, String.join_cons, put_append]
  simp only [map_bind, map_pure, bind_assoc, pure_bind]

/-! ## Sinks that fail -/

theorem bytesOf_lineFeed : bytesOf "\n" = [10] := by decide +kernel

theorem bytesOf_document (e : Element) : bytesOf e.document = bytesOf e.markup ++ [10] := by
  rw [document, bytesOf_append, bytesOf_lineFeed, markup]

theorem length_bytesOf_document (e : Element) :
    (bytesOf e.document).length = (bytesOf e.markup).length + 1 := by
  rw [bytesOf_document, List.length_append, List.length_singleton]

/-- Why a document does not go into a sink with the given room, if it does not. -/
def faultWithin (e : Element) (room : Nat) : Option WriteFault :=
  let size := (bytesOf e.document).length
  if size ≤ room then none else if size = room + 1 then some .lineEnd else some .markup

/-- The room may end inside the markup, right behind it, or not before the line feed does. -/
theorem faultWithin_cases (e : Element) (room : Nat) :
    (room < (bytesOf e.markup).length ∧ e.faultWithin room = some .markup) ∨
    (room = (bytesOf e.markup).length ∧ e.faultWithin room = some .lineEnd) ∨
    ((bytesOf e.markup).length < room ∧ e.faultWithin room = none) := by
  rw [faultWithin, length_bytesOf_document]
  obtain short | tight | long := Nat.lt_trichotomy room (bytesOf e.markup).length
  · exact .inl ⟨short, (if_neg (by omega)).trans (if_neg (by omega))⟩
  · exact .inr (.inl ⟨tight, (if_neg (by omega)).trans (if_pos (by omega))⟩)
  · exact .inr (.inr ⟨long, if_pos long⟩)

theorem deliver_eq (e : Element) (room : Nat) :
    e.deliver room =
      (⟨(bytesOf e.document).take room,
        if e.faultWithin room = none then some (room - (bytesOf e.document).length) else none⟩,
        e.faultWithin room) := by
  have line (left : Nat) : deliverText left ["\n"] =
      if 1 ≤ left then ⟨[10], some (left - 1)⟩ else ⟨[10].take left, none⟩ := by
    have joined : String.join ["\n"] = "\n" := by decide
    rw [deliverText_eq, joined, bytesOf_lineFeed]
    rfl
  rw [deliver, deliverText_eq, ← markup, bytesOf_document]
  obtain ⟨short, fault⟩ | ⟨rfl, fault⟩ | ⟨long, fault⟩ := e.faultWithin_cases room
  · rw [fault, if_neg (Nat.not_le_of_lt short),
      List.take_append_of_le_length (Nat.le_of_lt short)]
    rfl
  · rw [fault, if_pos (Nat.le_refl _)]
    simp only [line, Nat.sub_self, List.take_left]
    simp [Delivery.isComplete]
  · rw [fault, if_pos (Nat.le_of_lt long)]
    have last : 1 ≤ room - (bytesOf e.markup).length := Nat.sub_pos_of_lt long
    simp only [line, if_pos last, List.length_append, List.length_singleton, Nat.sub_sub]
    rw [List.take_of_length_le (by rw [List.length_append]; exact long)]
    rfl

theorem outcome_write (e : Element) (room : Nat) :
    outcome e.write { room } =
      ((e.faultWithin room).elim (.ok ()) .error,
        { taken := (bytesOf e.document).take room
          room := room - (bytesOf e.document).length }) := by
  have size := e.length_bytesOf_document
  have left : Sink.take { room } e.document =
    { taken := (bytesOf e.document).take room
      room := room - (bytesOf e.document).length } := rfl
  have fits : Sink.fits { room } e.document =
    (Sink.fits { room } e.markup && (Sink.take { room } e.markup).fits "\n") :=
      Sink.fits_append _ _ _
  rw [← left, write_eq, outcome_put_bind, outcome_put, ← Sink.take_append]
  obtain ⟨short, fault⟩ | ⟨tight, fault⟩ | ⟨long, fault⟩ := e.faultWithin_cases room
  · have unfit : Sink.fits { room } e.markup = false := decide_eq_false (Nat.not_le_of_lt short)
    rw [fault, unfit, document, ← markup, Sink.take_append_of_not_fits unfit]
    rfl
  · have markup_fits : Sink.fits { room } e.markup = true :=
      decide_eq_true (Nat.le_of_eq tight.symm)
    have not_all : ¬ (bytesOf e.document).length ≤ room := by omega
    have unfit : Sink.fits { room } e.document = false := decide_eq_false not_all
    rw [markup_fits, Bool.true_and] at fits
    rw [fault, markup_fits, ← fits, unfit]
    rfl
  · have markup_fits : Sink.fits { room } e.markup = true := decide_eq_true (Nat.le_of_lt long)
    have all : (bytesOf e.document).length ≤ room := by omega
    have all_fits : Sink.fits { room } e.document = true := decide_eq_true all
    rw [markup_fits, Bool.true_and] at fits
    rw [fault, markup_fits, ← fits, all_fits]
    rfl

/-- A document is written to a sink that fails when its room is used up.  The sink has the front of
the document.  All is well exactly if that is all of it; if it is all but the line feed at the
end, the line feed is at fault, and else the markup is. -/
theorem written_up_to_room (e : Element) (room : Nat) :
    let document := bytesOf e.document
    let fault :=
      if document.length ≤ room then none
      else if document.length = room + 1 then some WriteFault.lineEnd
      else some .markup
    document = bytesOf e.markup ++ bytesOf "\n" ∧
      (e.deliver room).1.taken = document.take room ∧
      (e.deliver room).2 = fault ∧
      outcome e.write { room } =
        (fault.elim (.ok ()) .error,
          { taken := document.take room, room := room - document.length }) := by
  rw [deliver_eq]
  exact ⟨bytesOf_append _ _, rfl, rfl, e.outcome_write room⟩

end Element

end SymbolFont.Markup
