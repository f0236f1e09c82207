/-
# Writing and reading again

Every tree that is kept is read back in its normal form.  The induction follows
the tree.  Among siblings it carries the run of text that has been read but has not become
a node yet; a new line is only written where this run is empty, so the run that it begins is
white space and is dropped.
-/

import Mathlib.Tactic.Common
import SymbolFont.Proofs.Markup.Normal
import SymbolFont.Proofs.Markup.Session

namespace SymbolFont.Markup

/-! ## Runs of text -/

/-- The run of a text. -/
def Run.of (cs : List Char) : Run := cs.foldl Run.add {}

/-- A run holds its text, reversed, and knows whether it is white space only. -/
theorem Run.of_eq (cs : List Char) : Run.of cs = ⟨cs.reverse, cs.all isSpace⟩ := by
  have added (run : Run) : cs.foldl Run.add run =
      ⟨cs.reverse ++ run.text, run.blank && cs.all isSpace⟩ := by
    induction cs generalizing run with
    | nil => simp
    | cons c cs ih => simp [ih, Run.add, Bool.and_assoc]
  rw [Run.of]
  simpa using added {}

/-- A run goes on with more text. -/
theorem Run.of_append (cs ds : List Char) : Run.of (cs ++ ds) = ds.foldl Run.add (Run.of cs) :=
  List.foldl_append

namespace Reader

variable {r : Reader}

/-- In an element, markup begins in the same stage. -/
theorem Inside.enter_eq (inside : r.Inside) : r.enter = r := by
  rw [enter, ← inside.stage]

/-- In an element, an element that ends is added as a node. -/
theorem Inside.complete_eq (inside : r.Inside) (e : Element) :
    r.complete e = r.push e.toNode := by
  obtain ⟨frame, frames, open_frames⟩ := List.exists_cons_of_ne_nil inside.frames
  rw [complete, open_frames]

/-- A run becomes a node, or nothing. -/
theorem endRun_of (cs : List Char) : r.endRun (Run.of cs) = (runNodes cs).foldl push r := by
  rw [Run.of_eq, endRun, runNodes]
  by_cases blank : cs.all isSpace = true
  · rw [blank]
    rfl
  · have some_text : cs.reverse.isEmpty = false := by
      rw [List.isEmpty_eq_false_iff]
      intro none
      rw [List.reverse_eq_nil_iff.mp none] at blank
      exact blank rfl
    rw [Bool.not_eq_true] at blank
    simp [blank, some_text]

end Reader

/-! ## Pieces of a tree -/

/-- The characters of pieces. -/
def charsOf (pieces : List String) : List Char := pieces.flatMap String.toList

/-- The characters of a start tag. -/
theorem charsOf_tagPieces (name : String) (attributes : Attributes) :
    charsOf (tagPieces name attributes) = writtenTag name attributes := by
  simp [charsOf, tagPieces, writtenTag, List.flatMap_map, toList_attributePiece]

/-- A new line is made of line feeds and spaces. -/
theorem mem_newline {depth : Nat} {c : Char} (member : c ∈ (newline depth).toList) :
    c = '\n' ∨ c = ' ' := by
  simp only [newline, String.toList_ofList, List.mem_cons, List.mem_replicate] at member
  exact member.imp id And.right

/-- A new line is white space. -/
theorem all_isSpace_newline (depth : Nat) : (newline depth).toList.all isSpace = true := by
  rw [List.all_eq_true]
  intro c member
  rcases mem_newline member with rfl | rfl <;> rfl

/-- A new line is plain text. -/
theorem isPlainText_newline (depth : Nat) : isPlainText (newline depth).toList = true := by
  rw [isPlainText, List.all_eq_true]
  intro c member
  rcases mem_newline member with rfl | rfl <;> rfl

/-- A new line needs no escapes. -/
theorem escapedText_newline (depth : Nat) :
    escapedText (newline depth).toList = (newline depth).toList := by
  have plain : ∀ c ∈ (newline depth).toList, escapeInText c = [c] := by
    intro c member
    rcases mem_newline member with rfl | rfl <;> rfl
  rw [escapedText, List.flatMap_congr plain]
  exact List.flatMap_singleton' _

/-- Sibling nodes in an element are read in their normal form: what they add to the element is
what they become behind the text before them, once the run of text at their end has ended. -/
def ReadsNormal (depth : Nat) (nodes : List Node) : Prop :=
  ∀ (afterText : Bool) (r : Reader) (run : List Char), r.Inside → (afterText = false → run = []) →
    ∃ (next : Reader) (left : List Char), next.Inside ∧
      Reads (charsOf (Node.piecesList depth afterText nodes)) (r.goto (.content (.of run)))
        (next.goto (.content (.of left))) ∧
      next.endRun (.of left) = (Node.normalList run nodes).foldl Reader.push r ∧
      ((nodes.getLast?.map Node.isText).getD afterText = false → left = [])

namespace Reads

variable {r : Reader}

/-- A new line begins a run that adds nothing to the element. -/
theorem lineBreak (inside : r.Inside) (depth : Nat) :
    Reads (newline depth).toList (r.goto (.content {}))
        (r.goto (.content (.of (newline depth).toList))) ∧
      r.endRun (.of (newline depth).toList) = r := by
  have read := text inside {} (isPlainText_newline depth)
  rw [escapedText_newline] at read
  refine ⟨read, ?_⟩
  rw [Reader.endRun_of, runNodes, if_pos (all_isSpace_newline depth)]
  rfl

/-- Where no text stands before markup a new line does, which changes nothing either. -/
theorem gap (inside : r.Inside) (depth : Nat) (afterText : Bool) {run : List Char}
    (empty : afterText = false → run = []) :
    ∃ filled : List Char,
      Reads (charsOf (if afterText then [] else [newline depth])) (r.goto (.content (.of run)))
        (r.goto (.content (.of filled))) ∧
      r.endRun (.of filled) = r.endRun (.of run) := by
  cases afterText with
  | true => exact ⟨run, .nil _, rfl⟩
  | false =>
      obtain rfl := empty rfl
      obtain ⟨read, unchanged⟩ := lineBreak inside depth
      refine ⟨_, ?_, unchanged⟩
      rw [if_neg Bool.false_ne_true, charsOf, List.flatMap_singleton]
      exact read

/-- An element is read in its normal form if its children are. -/
theorem element (fresh : r.prolog = {}) (run : Run) {depth : Nat} {name : String}
    {attributes : Attributes} {children : List Node} (name_plain : isPlainName name = true)
    (kept : areKeptAttributes attributes = true) (inner : ReadsNormal (depth + 1) children) :
    Reads (charsOf (Node.pieces depth true (.element name attributes children)))
      (r.goto (.content run))
      (((r.endRun run).enter.complete ⟨name, attributes, Node.normalList [] children⟩).goto
        (.content {})) := by
  match children with
  | [] =>
      have read := emptyTag fresh run name_plain kept
      rw [← charsOf_tagPieces] at read
      simp only [charsOf, Node.pieces, List.flatMap_append]
      exact read
  | child :: children =>
      have starts := startTag fresh run name_plain kept
      have opened_inside : ((r.endRun run).enter.opened name attributes).Inside :=
        ⟨(Reader.prolog_endRun run).trans fresh, rfl, List.cons_ne_nil _ _⟩
      obtain ⟨next, left, next_inside, read, added, settled⟩ :=
        inner false _ [] opened_inside (fun _ => rfl)
      have ends : endsInText (child :: children) = false → left = [] := by
        intro no_text
        apply settled
        rw [← no_text, endsInText]
        cases (child :: children).getLast? <;> rfl
      obtain ⟨filled, filling, unchanged⟩ := gap next_inside depth _ ends
      have finishes := endTag (.of filled) name_plain (unchanged.trans added)
      have joined := ((starts.append read).append filling).append finishes
      have written :
          charsOf (Node.pieces depth true (.element name attributes (child :: children))) =
          writtenTag name attributes ++ ['>'] ++
            charsOf (Node.piecesList (depth + 1) false (child :: children)) ++
            charsOf (if endsInText (child :: children) then [] else [newline depth]) ++
            ('<' :: '/' :: name.toList ++ ['>']) := by
        rw [← charsOf_tagPieces]
        simp [charsOf, Node.pieces]
      rw [written]
      exact joined

end Reads

/-- What the last of sibling nodes is depends on the first only if it stands alone. -/
theorem isText_getLast?_cons (afterText : Bool) (node : Node) (nodes : List Node) :
    (((node :: nodes).getLast?.map Node.isText).getD afterText) =
      (nodes.getLast?.map Node.isText).getD node.isText := by
  rw [List.getLast?_cons]
  cases nodes.getLast? <;> rfl

/-- A node that is no text is written behind a new line, unless text stands before it. -/
theorem charsOf_pieces {depth : Nat} {afterText : Bool} {node : Node}
    (no_text : node.isText = false) :
    charsOf (Node.pieces depth afterText node) =
      charsOf (if afterText then [] else [newline depth]) ++
        charsOf (Node.pieces depth true node) := by
  match node with
  | .text content => exact nomatch no_text
  | .comment content => simp [charsOf, Node.pieces]
  | .element name attributes [] => simp [charsOf, Node.pieces]
  | .element name attributes (child :: children) => simp [charsOf, Node.pieces]

/-- The pieces of a node come before those of its siblings. -/
theorem charsOf_piecesList_cons (depth : Nat) (afterText : Bool) (node : Node)
    (nodes : List Node) :
    charsOf (Node.piecesList depth afterText (node :: nodes)) =
      charsOf (Node.pieces depth afterText node) ++
        charsOf (Node.piecesList depth node.isText nodes) := by
  rw [Node.piecesList, charsOf, List.flatMap_append, charsOf, charsOf]

/-- Markup in front of siblings ends the run of text before it and becomes a node. -/
theorem ReadsNormal.cons_markup {depth : Nat} {node : Node} {nodes : List Node}
    (no_text : node.isText = false)
    (here : ∀ (r : Reader) (run : Run), r.Inside →
      Reads (charsOf (Node.pieces depth true node)) (r.goto (.content run))
        (((r.endRun run).push node.normal).goto (.content {})))
    (rest : ReadsNormal depth nodes) : ReadsNormal depth (node :: nodes) := by
  intro afterText r run inside empty
  obtain ⟨filled, filling, unchanged⟩ := Reads.gap inside depth afterText empty
  have markup := here r (.of filled) inside
  rw [unchanged] at markup
  obtain ⟨next, left, next_inside, read, added, settled⟩ :=
    rest false _ [] ((inside.endRun (.of run)).push node.normal) (fun _ => rfl)
  refine ⟨next, left, next_inside, ?_, ?_, ?_⟩
  · rw [charsOf_piecesList_cons, charsOf_pieces no_text, no_text]
    exact (filling.append markup).append read
  · rw [Node.normalList_of_not_isText run nodes no_text, List.foldl_append, List.foldl_cons,
      ← Reader.endRun_of]
    exact added
  · rw [isText_getLast?_cons, no_text]
    exact settled

/-- Sibling nodes that are kept are read in their normal form. -/
theorem readsNormal_of_kept {nodes : List Node} (kept : Node.allMeet .kept nodes = true)
    (depth : Nat) : ReadsNormal depth nodes := by
  induction nodes using Node.list_induction generalizing depth with
  | nil =>
      intro afterText r run inside empty
      exact ⟨r, run, inside, .nil _, Reader.endRun_of run, empty⟩
  | text content nodes ih =>
      intro afterText r run inside empty
      obtain ⟨plain, rest⟩ := Bool.and_eq_true_iff.mp kept
      have here := Reads.text inside (.of run) plain
      rw [← Run.of_append] at here
      obtain ⟨next, left, next_inside, read, added, settled⟩ :=
        ih rest depth true r (run ++ content.toList) inside (fun no_text => nomatch no_text)
      refine ⟨next, left, next_inside, ?_, added, ?_⟩
      · have written : charsOf (Node.pieces depth afterText (.text content)) =
            escapedText content.toList := by
          simp [charsOf, Node.pieces, escapedText]
        rw [charsOf_piecesList_cons, written]
        exact here.append read
      · rw [isText_getLast?_cons]
        exact settled
  | comment content nodes ih =>
      obtain ⟨plain, rest⟩ := Bool.and_eq_true_iff.mp kept
      refine ReadsNormal.cons_markup rfl ?_ (ih rest depth)
      intro r run inside
      obtain ⟨legal, separate⟩ := Bool.and_eq_true_iff.mp plain
      have written : charsOf (Node.pieces depth true (.comment content)) =
          "<!--".toList ++ padded content.toList ++ "-->".toList := by
        rw [← toList_commentPiece (of_decide_eq_true separate)]
        simp [charsOf, Node.pieces]
      rw [written]
      exact Reads.comment inside run (Bool.and_eq_true_iff.mp (isPlainComment_padded plain)).1
        (no_dashes_padded (of_decide_eq_true separate))
  | element name attributes children nodes inner ih =>
      obtain ⟨plain, rest⟩ := Bool.and_eq_true_iff.mp kept
      obtain ⟨tag_plain, children_kept⟩ := Bool.and_eq_true_iff.mp plain
      obtain ⟨name_plain, attributes_kept⟩ := Bool.and_eq_true_iff.mp tag_plain
      refine ReadsNormal.cons_markup rfl ?_ (ih rest depth)
      intro r run inside
      have read := Reads.element inside.prolog run name_plain attributes_kept
        (inner children_kept (depth + 1))
      rw [(inside.endRun run).enter_eq, (inside.endRun run).complete_eq] at read
      exact read

/-! ## Documents -/

-- States can be compared, so that reading a fixed text is a matter of computation.
deriving instance DecidableEq for Prolog, Quoted, TagHead, TagMode, Declaration, DeclarationMode,
  Run, Frame, DoctypeMode

deriving instance DecidableEq for Mode, Reader, Session

namespace Element

/-- The reader behind the declaration of a document. -/
def afterDeclaration : Reader := { stage := .prolog }

/-- The declaration settles the encoding, which is the one that documents are stored in. -/
theorem feed_declarationPiece :
    (declarationPiece.toList.flatMap String.utf8EncodeChar).foldlM Session.feed {} =
      some ⟨.utf8 false 0 0 0, false, afterDeclaration⟩ := by
  decide +kernel

/-- The characters of a document. -/
theorem toList_document (e : Element) :
    e.document.toList =
      declarationPiece.toList ++ (charsOf (e.toNode.pieces 0 false) ++ ['\n']) := by
  simp [document, pieces, charsOf]

/-- The root is read in its normal form. -/
theorem reads_root {e : Element} (kept : e.meets .kept = true) :
    Reads (charsOf (e.toNode.pieces 0 false)) afterDeclaration
      { stage := .body, root := some e.normal } := by
  obtain ⟨tag_kept, children_kept⟩ := Bool.and_eq_true_iff.mp kept
  obtain ⟨name_plain, attributes_kept⟩ := Bool.and_eq_true_iff.mp tag_kept
  have line : Reads ['\n'] afterDeclaration afterDeclaration :=
    ⟨by decide, _, .chars (List.forall_mem_singleton.mpr (by decide)), rfl, rfl⟩
  have root := Reads.element (r := afterDeclaration) rfl {} name_plain attributes_kept
    (readsNormal_of_kept children_kept 1)
  rw [charsOf_pieces rfl]
  exact line.append root

/-- A tree that is kept is read from its document in normal form. -/
theorem ofText?_document_of_kept {e : Element} (kept : e.meets .kept = true) :
    ofText? e.document = some e.normal := by
  obtain ⟨no_return, tokens, scans, ordinary, taken⟩ := reads_root kept
  have scanned := scans.lands (.char (c := '\n') rfl) .none
  have all_ordinary : ([] ++ (tokens ++ [Token.ofChar '\n'])).all Token.isOrdinary = true := by
    rw [List.nil_append, List.all_append, ordinary]
    rfl
  have ends : ([] ++ (tokens ++ [Token.ofChar '\n'])).foldlM Reader.take afterDeclaration =
      some { stage := .body, root := some e.normal } := by
    rw [List.nil_append, foldlM_append_some taken]
    rfl
  have quiet : afterDeclaration.Quiet := ⟨rfl, rfl, rfl, rfl⟩
  have fed := Session.foldlM_feed quiet scanned all_ordinary ends (by simp [no_return])
  have start : afterDeclaration.scanning {} = afterDeclaration := rfl
  rw [start] at fed
  rw [ofText?, ofBytes?, toList_toUTF8, toList_document, List.flatMap_append,
    foldlM_append_some feed_declarationPiece, fed]
  rfl

/-- So is a tree that a document can hold. -/
theorem ofText?_document {e : Element} (writable : e.isWritable = true) :
    ofText? e.document = some e.normal :=
  ofText?_document_of_kept (meets_kept_of_isWritable writable)

/-- Writing a tree and reading the document changes texts and comments only, and only once:
the elements with their names, attributes, order and nesting stay, what has been read is read
again as it is, and a tree that is tidy from the start does not change at all. -/
theorem document_round_trip {e : Element} (writable : e.isWritable = true) :
    ∃ read, ofText? e.document = some read ∧ read.bare = e.bare ∧
      ofText? read.document = some read ∧ (e.isTidy = true → read = e) := by
  refine ⟨e.normal, ofText?_document writable, e.bare_normal, ?_, normal_of_isTidy⟩
  have again := ofText?_document (isWritable_normal writable)
  rwa [normal_normal] at again

/-- A tree with texts that meet, a blank text, a comment without blanks and marks that need
escapes. -/
def untidy : Element :=
  ⟨"font", [("name", "\"<é>&'\"")],
    [.text "]", .text "]>", .comment "-x", .text " \n", .element "glyph" [] [.text ""]]⟩

/-- The untidy tree is read back with its elements, and then for good. -/
theorem document_round_trip_of_untidy :
    untidy.isWritable = true ∧ untidy.isTidy = false ∧
      ∃ read, ofText? untidy.document = some read ∧ read.bare = untidy.bare ∧
        ofText? read.document = some read ∧ (untidy.isTidy = true → read = untidy) :=
  ⟨by decide, by decide, document_round_trip (by decide)⟩

end Element

end SymbolFont.Markup
