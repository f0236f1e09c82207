/-
# What reading ensures

Whatever the document, the names in a tree that has been read are made of characters of names
without colons, and no comment holds two dashes in a row.  Each step of the reader keeps
this of all that has been read so far, of the start tag that it is in and of the comment that
it is in; for the comment the scanner has its part in it, since it holds dashes back.

Reading does not ensure that a tree can be written again: of a qualified name only the local
part is kept, which may begin with any character of names, and two attributes may keep the
same.  What is lacking is `Demands.faithful`.
-/

import Mathlib.Tactic.Common
import SymbolFont.Markup.Reader
import SymbolFont.Proofs.Markup.LocalName
import SymbolFont.Proofs.Markup.Normal

namespace SymbolFont.Markup

/-- What reading ensures of trees. -/
def Demands.read : Demands where
  tag name attributes := isLocalName name && attributes.all fun (key, _) => isLocalName key
  text _ := true
  comment cs := decide ¬['-', '-'] <:+: cs

/-- May a name begin like this? -/
def beginsName (name : String) : Bool := name.toList.head?.any isNameStart

theorem isPlainName_eq (name : String) :
    isPlainName name = (beginsName name && isLocalName name) := rfl

/-- What is demanded of a tree that has been read for it to be read again. -/
def Demands.faithful : Demands where
  tag name attributes :=
    beginsName name && decide (attributes.map Prod.fst).Nodup &&
      attributes.all fun (key, value) =>
        beginsName key && key != declaringName && isKeptValue value.toList
  text := isPlainText
  comment := isPlainText

/-- A tree that has been read and is faithful is read again. -/
theorem Element.meets_kept {e : Element} (read : e.meets .read = true)
    (faithful : e.meets .faithful = true) : e.meets .kept = true := by
  refine meets_of_parts ?_ ?_ ?_ read faithful
  · intro name attributes named begins
    simp only [Demands.read, Demands.faithful, Bool.and_eq_true, List.all_eq_true] at named begins
    simp only [Demands.kept, areKeptAttributes, isPlainName_eq, Bool.and_eq_true,
      List.all_eq_true]
    refine ⟨⟨begins.1.1, named.1⟩, begins.1.2, fun pair mem => ?_⟩
    obtain ⟨⟨starts, differs⟩, value⟩ := begins.2 pair mem
    exact ⟨⟨⟨starts, named.2 pair mem⟩, differs⟩, value⟩
  · exact fun cs _ plain => plain
  · exact fun cs separate plain => Bool.and_eq_true_iff.mpr ⟨plain, separate⟩

/-! ## Elements -/

/-- The tag of an element whose names are local. -/
theorem TagHead.read_tag {head : TagHead} (sound : AreLocal head.names) :
    Demands.read.tag head.name.localName head.localAttributes = true := by
  refine Bool.and_eq_true_iff.mpr ⟨sound _ List.mem_cons_self, ?_⟩
  rw [List.all_eq_true]
  intro pair mem
  obtain ⟨source, source_mem, rfl⟩ := List.mem_map.mp (List.mem_reverse.mp mem)
  exact sound _ (List.mem_cons_of_mem _ (List.mem_map_of_mem source_mem))

/-- Are the tag and the children of an open element as reading ensures? -/
structure Frame.IsSound (frame : Frame) : Prop where
  tag : Demands.read.tag frame.name.localName frame.attributes = true
  children : ∀ node ∈ frame.children, node.meets .read = true

/-- The names in the start tag that the reader is in. -/
def Mode.names : Mode → List QName
  | .startTag mode => mode.names
  | _ => []

namespace Reader

variable {r next : Reader}

/-- Is all that has been read as reading ensures? -/
structure Sound (r : Reader) : Prop where
  frames : ∀ frame ∈ r.frames, frame.IsSound
  root : ∀ e ∈ r.root, e.meets .read = true
  names : AreLocal r.mode.names

namespace Sound

variable {token : Token}

/-- Outside of start tags there is nothing to ensure of a mode. -/
theorem goto (sound : r.Sound) {mode : Mode} (none : mode.names = []) : (r.goto mode).Sound :=
  ⟨sound.frames, sound.root, fun _ mem => absurd (none ▸ mem) List.not_mem_nil⟩

/-- A token may be refused instead. -/
theorem of_ite (sound : r.Sound) {condition : Prop} [Decidable condition] {mode : Mode}
    (none : mode.names = [])
    (taken : (if condition then some (r.goto mode) else Option.none) = some next) :
    next.Sound := by
  obtain ⟨-, same⟩ := Option.ite_none_right_eq_some.mp taken
  cases same
  exact sound.goto none

theorem push (sound : r.Sound) {node : Node} (met : node.meets .read = true) :
    (r.push node).Sound := by
  obtain ⟨_, _, _, _, frames, _, _, _⟩ := r
  obtain ⟨all, root, names⟩ := sound
  cases frames with
  | nil => exact ⟨all, root, names⟩
  | cons frame frames =>
      obtain ⟨first, others⟩ := List.forall_mem_cons.mp all
      have extended : Frame.IsSound { frame with children := node :: frame.children } :=
        ⟨first.tag, List.forall_mem_cons.mpr ⟨met, first.children⟩⟩
      exact ⟨List.forall_mem_cons.mpr ⟨extended, others⟩, root, names⟩

theorem complete (sound : r.Sound) {e : Element} (met : e.meets .read = true) :
    (r.complete e).Sound := by
  obtain ⟨_, _, _, _, frames, _, _, _⟩ := r
  cases frames with
  | nil =>
      refine ⟨sound.frames, fun root mem => ?_, sound.names⟩
      exact Option.some.inj (show some e = some root from mem) ▸ met
  | cons frame frames => exact sound.push met

theorem endRun (sound : r.Sound) (run : Run) : (r.endRun run).Sound := by
  rw [Reader.endRun]
  split
  · exact sound
  · exact sound.push rfl

/-- Markup begins without a name. -/
theorem takeMarkup (sound : r.Sound) (taken : r.takeMarkup token = some next) : next.Sound := by
  have fresh : AreLocal (TagMode.name []).names := fun _ mem => absurd mem List.not_mem_nil
  cases token <;>
    simp only [Reader.takeMarkup, Option.ite_none_left_eq_some, Option.some.injEq,
      reduceCtorEq] at taken
  case openTag | openComment =>
      cases taken
      exact ⟨sound.frames, sound.root, fresh⟩
  case openInstruction =>
      cases taken
      exact sound.goto rfl
  case openEndTag | openCharacterData =>
      cases taken.2
      exact sound.goto rfl
  case openDoctype =>
      cases taken.2
      exact ⟨sound.frames, sound.root, fresh⟩

theorem takeChar (sound : r.Sound) {run : Run} {c : Char} (taken : r.takeChar run c = some next) :
    next.Sound := by
  have fresh : AreLocal (Mode.content run).names := fun _ mem => absurd mem List.not_mem_nil
  rw [Reader.takeChar] at taken
  split at taken
  · rw [Option.ite_none_right_eq_some] at taken
    cases taken.2
    exact ⟨sound.frames, sound.root, fresh⟩
  · exact sound.of_ite rfl taken

theorem takeContent (sound : r.Sound) {run : Run} (taken : r.takeContent run token = some next) :
    next.Sound := by
  by_cases idle : isIdleMark token = true
  · rw [takeContent_of_isIdleMark r run idle, Option.ite_none_left_eq_some] at taken
    cases taken.2
    exact sound.goto rfl
  by_cases char : ∃ c, token = .char c
  · obtain ⟨c, rfl⟩ := char
    exact sound.takeChar taken
  by_cases reference : token = .ampersand
  · rw [reference, takeContent_ampersand, Option.ite_none_left_eq_some] at taken
    cases taken.2
    exact sound.goto rfl
  · rw [takeContent_markup r run (not_exists.mp char) reference (by simpa using idle)] at taken
    exact (sound.endRun run).takeMarkup taken

theorem takeReference (sound : r.Sound) {run : Run} {name : List Char}
    (taken : r.takeReference run name token = some next) : next.Sound := by
  cases token with
  | char c => exact sound.of_ite rfl taken
  | semicolon =>
      rw [takeReference_semicolon] at taken
      split at taken
      · cases taken
        exact sound.goto rfl
      · cases taken
        exact ⟨sound.frames, sound.root, fun _ mem => absurd mem List.not_mem_nil⟩
      · cases taken
  | _ => cases taken

/-- A comment that ends becomes a node. -/
theorem takeComment (sound : r.Sound) {text : List Char}
    (closes : token = .closeComment → ¬['-', '-'] <:+: text.reverse)
    (taken : r.takeComment text token = some next) : next.Sound := by
  cases token with
  | char c => exact sound.of_ite rfl taken
  | closeComment =>
      cases taken
      have met : Node.meets .read (.comment (String.ofList text.reverse)) = true := by
        rw [Node.meets, String.toList_ofList]
        exact decide_eq_true (closes rfl)
      exact (sound.push met).goto rfl
  | _ => cases taken

theorem takeCharacterData (sound : r.Sound) {text : List Char}
    (taken : r.takeCharacterData text token = some next) : next.Sound := by
  cases token with
  | char c => exact sound.of_ite rfl taken
  | closeCharacterData =>
      cases taken
      have met : Node.meets .read (.text (String.ofList text.reverse)) = true := rfl
      exact (sound.push met).goto rfl
  | _ => cases taken

theorem takeInstruction (sound : r.Sound) {mode : InstructionMode}
    (taken : r.takeInstruction mode token = some next) : next.Sound := by
  rw [Reader.takeInstruction] at taken
  split at taken
  · cases taken
  · cases taken
    exact sound.goto rfl
  · cases taken
    exact ⟨sound.frames, sound.root, fun _ mem => absurd mem List.not_mem_nil⟩
  · exact sound.of_ite rfl taken

theorem takeDeclaration (sound : r.Sound) {mode : DeclarationMode}
    (taken : r.takeDeclaration mode token = some next) : next.Sound := by
  rw [Reader.takeDeclaration] at taken
  split at taken
  · cases taken
  · cases taken
    exact sound.goto rfl
  · cases taken
    exact ⟨sound.frames, sound.root, fun _ mem => absurd mem List.not_mem_nil⟩

theorem takeDoctype (sound : r.Sound) {mode : DoctypeMode}
    (taken : r.takeDoctype mode token = some next) : next.Sound := by
  obtain ⟨step, -, rfl⟩ := Option.map_eq_some_iff.mp taken
  have none : (step.mode.elim (Mode.content {}) Mode.doctype).names = [] := by
    cases step.mode <;> rfl
  exact ⟨sound.frames, sound.root, fun _ mem => absurd (none ▸ mem) List.not_mem_nil⟩

/-- An element opens with names that are local. -/
theorem openElement (sound : r.Sound) {head : TagHead} {isEmpty : Bool}
    (names : AreLocal head.names) (taken : r.openElement head isEmpty = some next) :
    next.Sound := by
  have tag := TagHead.read_tag names
  rw [Reader.openElement, Option.ite_none_right_eq_some] at taken
  obtain ⟨-, taken⟩ := taken
  split at taken
  · cases taken
    have met : Element.meets .read ⟨head.name.localName, head.localAttributes, []⟩ = true :=
      Element.meets_iff.mpr ⟨tag, fun _ mem => absurd mem List.not_mem_nil⟩
    exact (sound.complete met).goto rfl
  · cases taken
    refine ⟨List.forall_mem_cons.mpr ⟨⟨tag, ?_⟩, sound.frames⟩, sound.root, ?_⟩ <;>
      exact fun _ mem => absurd mem List.not_mem_nil

theorem takeStartTag (sound : r.Sound) {mode : TagMode} (names : AreLocal mode.names)
    (taken : r.takeStartTag mode token = some next) : next.Sound := by
  rw [Reader.takeStartTag] at taken
  split at taken
  · cases taken
  · rename_i later progress
    cases taken
    exact ⟨sound.frames, sound.root, TagMode.areLocal_of_take names progress⟩
  · rename_i head isEmpty progress
    exact sound.openElement (TagMode.areLocal_of_take names progress) taken

/-- An element that closes becomes a node, or the root. -/
theorem closeElement (sound : r.Sound) {name : QName}
    (taken : r.closeElement name = some next) : next.Sound := by
  rw [Reader.closeElement] at taken
  split at taken
  · cases taken
  · rename_i frame frames open_frames
    rw [Option.ite_none_right_eq_some] at taken
    obtain ⟨rfl, taken⟩ := taken
    cases taken
    obtain ⟨first, others⟩ := List.forall_mem_cons.mp (open_frames ▸ sound.frames)
    have met : Element.meets .read
        ⟨frame.name.localName, frame.attributes, frame.children.reverse⟩ = true :=
      Element.meets_iff.mpr
        ⟨first.tag, fun node mem => first.children node (List.mem_reverse.mp mem)⟩
    have outer : Sound { r with frames } := ⟨others, sound.root, sound.names⟩
    exact (outer.complete met).goto rfl

theorem takeEndTag (sound : r.Sound) {text : List Char}
    (taken : r.takeEndTag text token = some next) : next.Sound := by
  cases token with
  | char c =>
      rw [takeEndTag_char] at taken
      split at taken
      · cases taken
        exact sound.goto rfl
      · rw [Option.ite_none_right_eq_some] at taken
        obtain ⟨name, -, rfl⟩ := Option.map_eq_some_iff.mp taken.2
        exact sound.goto rfl
  | closeTag =>
      obtain ⟨name, -, closed⟩ := Option.bind_eq_some_iff.mp taken
      exact sound.closeElement closed
  | _ => cases taken

theorem takeEndTagGap (sound : r.Sound) {name : QName}
    (taken : r.takeEndTagGap name token = some next) : next.Sound := by
  cases token with
  | char c =>
      rw [takeEndTagGap_char, Option.ite_none_right_eq_some] at taken
      cases taken.2
      exact sound
  | closeTag => exact sound.closeElement taken
  | _ => cases taken

/-- A token keeps the reader sound, if it does not end a comment too early. -/
theorem take (sound : r.Sound)
    (closes : ∀ text, r.mode = .comment text → token = .closeComment →
      ¬['-', '-'] <:+: text.reverse)
    (taken : r.take token = some next) : next.Sound := by
  have names := sound.names
  rw [Reader.take] at taken
  split at taken <;> rename_i mode
  · exact sound.takeContent taken
  · exact sound.takeReference taken
  · exact sound.takeComment (closes _ mode) taken
  · exact sound.takeCharacterData taken
  · exact sound.takeInstruction taken
  · exact sound.takeDeclaration taken
  · exact sound.takeDoctype taken
  · rw [mode] at names
    exact sound.takeStartTag names taken
  · exact sound.takeEndTag taken
  · exact sound.takeEndTagGap taken

end Sound

end Reader

/-! ## Comments -/

/-- Is the place in a comment? -/
def Place.isComment : Place → Bool
  | .comment | .dash _ => true
  | _ => false

/-- Can the text of a comment go on with these characters, and then end? -/
def Continues (cs : List Char) : Prop :=
  ∀ text : List Char, ¬['-', '-'] <:+: text ++ ['-'] → ¬['-', '-'] <:+: text ++ cs ++ ['-']

theorem continues_nil : Continues [] := by
  intro text separate
  rwa [List.append_nil]

/-- A text goes on with a character that is no dash, also behind a dash. -/
theorem no_dashes_snoc {cs : List Char} {c : Char} (no_dash : c ≠ '-')
    (separate : ¬['-', '-'] <:+: cs) : ¬['-', '-'] <:+: cs ++ [c] ++ ['-'] := by
  have last : ¬['-', '-'] <:+: cs ++ [c] :=
    no_dashes_append separate (no_dashes_singleton c) (.inr (by simpa using no_dash))
  exact no_dashes_append last (no_dashes_singleton '-') (.inl (by simpa using no_dash))

theorem continues_char {c : Char} (no_dash : c ≠ '-') : Continues [c] := by
  intro text separate
  exact no_dashes_snoc no_dash fun pair => separate (pair.trans (List.prefix_append _ _).isInfix)

theorem continues_dash_char {c : Char} (no_dash : c ≠ '-') : Continues ['-', c] := by
  intro text separate
  have joined : text ++ ['-', c] = text ++ ['-'] ++ [c] := by simp
  rw [joined]
  exact no_dashes_snoc no_dash separate

theorem ofChar_ne_openComment (c : Char) : Token.ofChar c ≠ .openComment := by
  rw [Token.ofChar]
  repeat' split
  all_goals simp

namespace Scanner

variable {s s' : Scanner} {c : Char} {tokens : List Token}

/-- In a comment there are characters up to its end.  A dash comes with the character behind
it, which is no dash. -/
theorem step_of_isComment (inside : s.place.isComment = true)
    (stepped : s.step c = some (s', tokens)) :
    tokens = [.closeComment] ∨
      s'.place.isComment = true ∧ ∃ cs, tokens = cs.map .char ∧ Continues cs := by
  obtain ⟨place, inDoctype⟩ := s
  cases place with
  | comment =>
      simp only [step, Option.some.injEq] at stepped
      split at stepped
      · cases stepped
        exact .inr ⟨rfl, [], rfl, continues_nil⟩
      · rename_i no_dash
        cases stepped
        exact .inr ⟨rfl, [c], rfl, continues_char no_dash⟩
  | dash two =>
      simp only [step, dash] at stepped
      split at stepped
      · rw [Option.ite_none_right_eq_some] at stepped
        cases stepped.2
        exact .inl rfl
      · split at stepped
        · cases stepped
          exact .inr ⟨rfl, [], rfl, continues_nil⟩
        · rename_i no_dash
          cases stepped
          exact .inr ⟨rfl, ['-', c], rfl, continues_dash_char no_dash⟩
  | _ => cases inside

/-- The beginning of a comment comes alone and leads into the comment. -/
theorem step_openComment (stepped : s.step c = some (s', tokens))
    (opens : .openComment ∈ tokens) : tokens = [.openComment] ∧ s'.place.isComment = true := by
  have no_char := ofChar_ne_openComment c
  obtain ⟨place, inDoctype⟩ := s
  cases place <;>
    simp only [step, content, doctype, declaration, characterData, instruction, markup, bang, word,
      closing, dash, enter, moveTo, around, Scanned.after] at stepped <;>
    grind [Place.isComment]

end Scanner

namespace Reader

variable {r next : Reader} {token : Token}

theorem scanner_endRun (run : Run) : (r.endRun run).scanner = r.scanner := by
  obtain ⟨_, _, _, _, frames, _, _, _⟩ := r
  cases frames <;> rw [endRun] <;> split <;> rfl

/-- Of all markup only the beginning of a comment leads into one. -/
theorem comment_of_takeMarkup {text : List Char} (taken : r.takeMarkup token = some next)
    (inside : next.mode = .comment text) :
    next.scanner = r.scanner ∧ token = .openComment ∧ text = [] := by
  cases token <;> grind [takeMarkup, goto]

theorem comment_of_takeContent {run : Run} {text : List Char}
    (taken : r.takeContent run token = some next) (inside : next.mode = .comment text) :
    next.scanner = r.scanner ∧ token = .openComment ∧ text = [] := by
  by_cases idle : isIdleMark token = true
  · rw [takeContent_of_isIdleMark r run idle] at taken
    grind [goto]
  by_cases char : ∃ c, token = .char c
  · obtain ⟨c, rfl⟩ := char
    have char_taken : r.takeChar run c = some next := taken
    grind [takeChar, goto]
  by_cases reference : token = .ampersand
  · rw [reference, takeContent_ampersand] at taken
    grind [goto]
  · rw [takeContent_markup r run (not_exists.mp char) reference (by simpa using idle)] at taken
    exact scanner_endRun (r := r) run ▸ comment_of_takeMarkup taken inside

/-- The reader is in a comment behind its beginning and behind characters of it. -/
theorem comment_of_take {text : List Char} (taken : r.take token = some next)
    (inside : next.mode = .comment text) :
    next.scanner = r.scanner ∧
      (token = .openComment ∧ text = [] ∨
        ∃ c rest, r.mode = .comment rest ∧ token = .char c ∧ text = c :: rest) := by
  unfold take at taken
  split at taken
  case h_1 => exact (comment_of_takeContent taken inside).imp id .inl
  case h_2 =>
      cases token with
      | char c => rw [takeReference_char] at taken; grind [goto]
      | semicolon => rw [takeReference_semicolon] at taken; grind [goto]
      | _ => cases taken
  case h_3 =>
      cases token with
      | char c => rw [takeComment_char] at taken; grind [goto]
      | closeComment => rw [takeComment_closeComment] at taken; grind [goto]
      | _ => cases taken
  case h_4 =>
      cases token with
      | char c => rw [takeCharacterData_char] at taken; grind [goto]
      | closeCharacterData =>
          rw [takeCharacterData_closeCharacterData] at taken
          grind [goto]
      | _ => cases taken
  case h_5 => grind [takeInstruction, goto]
  case h_6 => grind [takeDeclaration, goto]
  case h_7 mode _ =>
      obtain ⟨step, -, rfl⟩ := Option.map_eq_some_iff.mp taken
      cases step_mode : step.mode <;> simp [step_mode] at inside
  case h_8 => grind [takeStartTag, goto, openElement]
  case h_9 =>
      cases token with
      | char c => rw [takeEndTag_char] at taken; grind [goto, Option.map_eq_some_iff]
      | closeTag =>
          rw [takeEndTag_closeTag] at taken
          grind [goto, closeElement, Option.bind_eq_some_iff]
      | _ => cases taken
  case h_10 =>
      cases token with
      | char c => rw [takeEndTagGap_char] at taken; grind
      | closeTag =>
          have closed : r.closeElement _ = some next := taken
          grind [goto, closeElement]
      | _ => cases taken

/-- Outside of comments all tokens but the beginning of one keep the reader sound. -/
theorem Sound.foldlM_take (sound : r.Sound) (outside : ∀ text, r.mode ≠ .comment text)
    {tokens : List Token} (closed : .openComment ∉ tokens)
    (taken : tokens.foldlM Reader.take r = some next) :
    next.Sound ∧ ∀ text, next.mode ≠ .comment text := by
  induction tokens generalizing r with
  | nil =>
      cases taken
      exact ⟨sound, outside⟩
  | cons token tokens ih =>
      obtain ⟨differ, closed⟩ := not_or.mp (mt List.mem_cons.mpr closed)
      rw [List.foldlM_cons, Option.bind_eq_bind, Option.bind_eq_some_iff] at taken
      obtain ⟨middle, first, rest⟩ := taken
      refine ih (sound.take (fun text mode => absurd mode (outside text)) first) ?_ closed rest
      intro text inside
      obtain ⟨-, ⟨rfl, -⟩ | ⟨c, rest, mode, -⟩⟩ := comment_of_take first inside
      · exact differ rfl
      · exact outside rest mode

/-- Characters in a comment are added to its text. -/
theorem foldlM_take_comment {text cs : List Char} (sound : r.Sound) (mode : r.mode = .comment text)
    (taken : (cs.map Token.char).foldlM take r = some next) :
    next.Sound ∧ next.scanner = r.scanner ∧ next.mode = .comment (cs.reverse ++ text) := by
  induction cs generalizing r text with
  | nil =>
      cases taken
      exact ⟨sound, rfl, mode⟩
  | cons c cs ih =>
      rw [List.map_cons, List.foldlM_cons, Option.bind_eq_bind, Option.bind_eq_some_iff] at taken
      obtain ⟨middle, first, rest⟩ := taken
      have middle_sound := sound.take (by simp) first
      rw [take, mode] at first
      obtain ⟨-, same⟩ := Option.ite_none_right_eq_some.mp first
      cases same
      obtain ⟨next_sound, scanner, next_mode⟩ := ih middle_sound rfl rest
      refine ⟨next_sound, scanner, ?_⟩
      rw [next_mode, List.reverse_cons, List.append_assoc]
      rfl

/-- Is the reader sound between characters?  In a comment the scanner is in one too, and holds
back a dash at most if the text so far does not end in one. -/
structure Steady (r : Reader) : Prop where
  sound : r.Sound
  comment : ∀ text, r.mode = .comment text →
    r.scanner.place.isComment = true ∧ ¬['-', '-'] <:+: text.reverse ++ ['-']

/-- What follows a character in a comment. -/
theorem Steady.of_comment {text : List Char} {tokens : List Token} (sound : r.Sound)
    (mode : r.mode = .comment text) (separate : ¬['-', '-'] <:+: text.reverse ++ ['-'])
    (follows : tokens = [.closeComment] ∨ r.scanner.place.isComment = true ∧
      ∃ cs, tokens = cs.map .char ∧ Continues cs)
    (taken : tokens.foldlM Reader.take r = some next) : next.Steady := by
  rcases follows with rfl | ⟨still, cs, rfl, continues⟩
  · rw [List.foldlM_cons, Option.bind_eq_bind, Option.bind_eq_some_iff] at taken
    obtain ⟨middle, ends, same⟩ := taken
    cases same
    refine ⟨sound.take (fun other own _ => ?_) ends, fun other inside => ?_⟩
    · obtain rfl : text = other := Mode.comment.inj (mode.symm.trans own)
      exact fun pair => separate (pair.trans (List.prefix_append _ _).isInfix)
    · obtain ⟨-, ⟨opens, -⟩ | ⟨c, rest, -, char, -⟩⟩ := comment_of_take ends inside
      · cases opens
      · cases char
  · obtain ⟨next_sound, scanner, next_mode⟩ := foldlM_take_comment sound mode taken
    refine ⟨next_sound, fun other own => ?_⟩
    obtain rfl : cs.reverse ++ text = other := Mode.comment.inj (next_mode.symm.trans own)
    rw [scanner, List.reverse_append, List.reverse_reverse]
    exact ⟨still, continues _ separate⟩

/-- What follows the mark that begins a comment. -/
theorem Steady.of_openComment (sound : r.Sound) (outside : ∀ text, r.mode ≠ .comment text)
    (place : r.scanner.place.isComment = true) (taken : r.take .openComment = some next) :
    next.Steady := by
  refine ⟨sound.take (by simp) taken, fun text mode => ?_⟩
  obtain ⟨scanner, ⟨-, rfl⟩ | ⟨c, rest, inside, -, -⟩⟩ := comment_of_take taken mode
  · rw [scanner]
    exact ⟨place, no_dashes_singleton '-'⟩
  · exact absurd inside (outside rest)

/-- A character keeps the reader sound. -/
theorem Steady.step (steady : r.Steady) {c : Char} (stepped : r.step c = some next) :
    next.Steady := by
  obtain ⟨⟨scanner, tokens⟩, scanned, taken⟩ := Option.bind_eq_some_iff.mp stepped
  have sound : Sound { r with scanner } :=
    ⟨steady.sound.frames, steady.sound.root, steady.sound.names⟩
  by_cases inside : ∃ text, r.mode = .comment text
  · obtain ⟨text, mode⟩ := inside
    obtain ⟨place, separate⟩ := steady.comment text mode
    exact .of_comment sound mode separate (Scanner.step_of_isComment place scanned) taken
  have outside := not_exists.mp inside
  by_cases opens : .openComment ∈ tokens
  · obtain ⟨rfl, place⟩ := Scanner.step_openComment scanned opens
    obtain ⟨middle, begins, same⟩ := Option.bind_eq_some_iff.mp taken
    cases same
    exact .of_openComment sound outside place begins
  · obtain ⟨next_sound, next_outside⟩ := sound.foldlM_take outside opens taken
    exact ⟨next_sound, fun text mode => absurd mode (next_outside text)⟩

/-- Characters keep the reader sound, whatever entities they bring in. -/
theorem Steady.readWith (steady : r.Steady) {expand : List Char → Reader → Option Reader}
    (expands : ∀ cs (s t : Reader), s.Steady → expand cs s = some t → t.Steady) {cs : List Char}
    (taken : readWith expand cs r = some next) : next.Steady := by
  induction cs generalizing r with
  | nil =>
      cases taken
      exact steady
  | cons c cs ih =>
      rw [Reader.readWith] at taken
      split at taken
      · cases taken
      · rename_i middle stepped
        have middle_steady := steady.step stepped
        split at taken
        · exact ih middle_steady taken
        · rw [Option.ite_none_left_eq_some] at taken
          have resumed : Steady { middle with insertion := [] } :=
            ⟨⟨middle_steady.sound.frames, middle_steady.sound.root, middle_steady.sound.names⟩,
              middle_steady.comment⟩
          exact expands _ _ _ resumed taken.2

theorem Steady.readWithin (steady : r.Steady) {limit : Nat} {cs : List Char}
    (taken : readWithin limit cs r = some next) : next.Steady := by
  induction limit generalizing r next cs with
  | zero => exact steady.readWith (by simp) taken
  | succ limit ih => exact steady.readWith (fun _ _ _ steady expanded => ih steady expanded) taken

end Reader

/-! ## Documents -/

namespace Session

variable {s next : Session}

theorem steady_of_feedChar (steady : s.reader.Steady) {c : Char} (fed : s.feedChar c = some next) :
    next.reader.Steady := by
  rw [feedChar] at fed
  split at fed
  · cases fed
    exact steady
  · obtain ⟨reader, read, rfl⟩ := Option.map_eq_some_iff.mp fed
    exact steady.readWithin read

theorem steady_of_settle (steady : s.reader.Steady) (settled : s.settle = some next) :
    next.reader.Steady := by
  rw [settle] at settled
  split at settled
  · cases settled
    exact steady
  · obtain ⟨charset, -, declared⟩ := Option.bind_eq_some_iff.mp settled
    obtain ⟨decoder, -, rfl⟩ := Option.map_eq_some_iff.mp declared
    exact ⟨⟨steady.sound.frames, steady.sound.root, steady.sound.names⟩, steady.comment⟩

/-- A byte keeps the reader sound. -/
theorem steady_of_feed (steady : s.reader.Steady) {byte : UInt8} (fed : s.feed byte = some next) :
    next.reader.Steady := by
  rw [feed] at fed
  split at fed
  · cases fed
  · cases fed
    exact steady
  · obtain ⟨middle, char, settled⟩ := Option.bind_eq_some_iff.mp fed
    exact steady_of_settle (steady_of_feedChar (by exact steady) char) settled

/-- So do the bytes of a document. -/
theorem steady_of_foldlM_feed (steady : s.reader.Steady) {bytes : List UInt8}
    (fed : bytes.foldlM feed s = some next) : next.reader.Steady := by
  induction bytes generalizing s with
  | nil =>
      cases fed
      exact steady
  | cons byte bytes ih =>
      rw [List.foldlM_cons, Option.bind_eq_bind, Option.bind_eq_some_iff] at fed
      obtain ⟨middle, first, rest⟩ := fed
      exact ih (steady_of_feed steady first) rest

end Session

namespace Element

/-- A tree that has been read is as reading ensures. -/
theorem meets_read_of_ofBytes? {bytes : List UInt8} {e : Element} (read : ofBytes? bytes = some e) :
    e.meets .read = true := by
  obtain ⟨s, fed, finished⟩ := Option.bind_eq_some_iff.mp read
  have sound : Reader.Sound {} :=
    ⟨by simp, by simp, fun _ mem => absurd mem List.not_mem_nil⟩
  have fresh : Reader.Steady {} := ⟨sound, by simp⟩
  have steady := Session.steady_of_foldlM_feed fresh fed
  rw [Option.ite_none_right_eq_some] at finished
  have root : s.reader.root = some e := by
    have ended := finished.2
    unfold Reader.finish at ended
    split at ended
    · exact ended
    · cases ended
  exact steady.sound.root e root

end Element

end SymbolFont.Markup
