/-
# From characters to tokens

A session decodes bytes, the reader scans the characters and takes their tokens.  While
there is nothing but ordinary markup these three do not interfere: the bytes of a text may
be replaced by its characters, and those by their tokens.  An entity would break this, and
so would a declaration of another encoding, but ordinary tokens lead to neither.
-/

import Mathlib.Tactic.Common
import SymbolFont.Proofs.Markup.Encoding
import SymbolFont.Proofs.Markup.Pieces

namespace SymbolFont.Markup

/-- Is the reader in a kind of markup that trees are written of? -/
def Mode.isOrdinary : Mode → Bool
  | .instruction _ | .declaration _ | .doctype _ => false
  | _ => true

namespace Reader

variable {r next : Reader}

/-! ## The scanner apart -/

/-- The reader with another state of the scanner. -/
def scanning (r : Reader) (s : Scanner) : Reader := { r with scanner := s }

section Scanning

variable (s : Scanner)

@[simp] theorem prolog_scanning : (r.scanning s).prolog = r.prolog := rfl

@[simp] theorem push_scanning (node : Node) :
    (r.scanning s).push node = (r.push node).scanning s := by
  obtain ⟨_, _, _, _, frames, _, _, _⟩ := r
  cases frames <;> rfl

@[simp] theorem complete_scanning (e : Element) :
    (r.scanning s).complete e = (r.complete e).scanning s := by
  obtain ⟨_, _, _, _, frames, _, _, _⟩ := r
  cases frames <;> rfl

@[simp] theorem endRun_scanning (run : Run) :
    (r.scanning s).endRun run = (r.endRun run).scanning s := by
  rw [endRun, endRun]
  split
  · rfl
  · exact push_scanning s _

theorem takeMarkup_scanning (token : Token) :
    (r.scanning s).takeMarkup token = (r.takeMarkup token).map (·.scanning s) := by
  cases token <;> simp only [takeMarkup, apply_ite (Option.map _)] <;> rfl

theorem takeChar_scanning (run : Run) (c : Char) :
    (r.scanning s).takeChar run c = (r.takeChar run c).map (·.scanning s) := by
  simp only [takeChar, apply_ite (Option.map _)]
  rfl

theorem takeContent_scanning (run : Run) (token : Token) :
    (r.scanning s).takeContent run token = (r.takeContent run token).map (·.scanning s) := by
  have markup : ((r.scanning s).endRun run).takeMarkup token =
      ((r.endRun run).takeMarkup token).map (·.scanning s) := by
    rw [endRun_scanning, takeMarkup_scanning]
  by_cases idle : isIdleMark token = true
  · rw [takeContent_of_isIdleMark _ run idle, takeContent_of_isIdleMark _ run idle,
      apply_ite (Option.map _)]
    rfl
  · cases token with
    | char c => exact takeChar_scanning s run c
    | ampersand =>
        rw [takeContent_ampersand, takeContent_ampersand, apply_ite (Option.map _)]
        rfl
    | _ => first | exact markup | exact absurd rfl idle

theorem takeReference_scanning (run : Run) (name : List Char) (token : Token) :
    (r.scanning s).takeReference run name token =
      (r.takeReference run name token).map (·.scanning s) := by
  cases token with
  | char c =>
      rw [takeReference_char, takeReference_char, apply_ite (Option.map _)]
      rfl
  | semicolon =>
      rw [takeReference_semicolon, takeReference_semicolon, prolog_scanning]
      cases r.prolog.resolve? name.reverse with
      | none => rfl
      | some referent => cases referent <;> rfl
  | _ => rfl

theorem takeComment_scanning (text : List Char) (token : Token) :
    (r.scanning s).takeComment text token = (r.takeComment text token).map (·.scanning s) := by
  cases token with
  | char c =>
      rw [takeComment_char, takeComment_char, apply_ite (Option.map _)]
      rfl
  | closeComment =>
      rw [takeComment_closeComment, takeComment_closeComment, push_scanning]
      rfl
  | _ => rfl

theorem takeCharacterData_scanning (text : List Char) (token : Token) :
    (r.scanning s).takeCharacterData text token =
      (r.takeCharacterData text token).map (·.scanning s) := by
  cases token with
  | char c =>
      rw [takeCharacterData_char, takeCharacterData_char, apply_ite (Option.map _)]
      rfl
  | closeCharacterData =>
      rw [takeCharacterData_closeCharacterData, takeCharacterData_closeCharacterData,
        push_scanning]
      rfl
  | _ => rfl

theorem openElement_scanning (head : TagHead) (isEmpty : Bool) :
    (r.scanning s).openElement head isEmpty =
      (r.openElement head isEmpty).map (·.scanning s) := by
  simp only [openElement, apply_ite (Option.map _), complete_scanning]
  rfl

theorem takeStartTag_scanning (mode : TagMode) (token : Token) :
    (r.scanning s).takeStartTag mode token = (r.takeStartTag mode token).map (·.scanning s) := by
  rw [takeStartTag, takeStartTag, prolog_scanning]
  rcases mode.take r.prolog token with _ | _ | _
  · rfl
  · rfl
  · exact openElement_scanning s _ _

theorem closeElement_scanning (name : QName) :
    (r.scanning s).closeElement name = (r.closeElement name).map (·.scanning s) := by
  obtain ⟨_, _, _, _, frames, _, _, _⟩ := r
  rcases frames with _ | ⟨_, _ | _⟩
  · rfl
  all_goals
    simp only [closeElement, apply_ite (Option.map _)]
    rfl

theorem takeEndTag_scanning (text : List Char) (token : Token) :
    (r.scanning s).takeEndTag text token = (r.takeEndTag text token).map (·.scanning s) := by
  cases token with
  | char c =>
      simp only [takeEndTag_char, apply_ite (Option.map _), Option.map_map]
      rfl
  | closeTag =>
      rw [takeEndTag_closeTag, takeEndTag_closeTag]
      cases QName.ofChars? text.reverse with
      | none => rfl
      | some name => exact closeElement_scanning s name
  | _ => rfl

theorem takeEndTagGap_scanning (name : QName) (token : Token) :
    (r.scanning s).takeEndTagGap name token = (r.takeEndTagGap name token).map (·.scanning s) := by
  cases token with
  | char c =>
      rw [takeEndTagGap_char, takeEndTagGap_char, apply_ite (Option.map _)]
      rfl
  | closeTag => exact closeElement_scanning s name
  | _ => rfl

/-- What ordinary markup does to the reader does not depend on the scanner. -/
theorem take_scanning (ordinary : r.mode.isOrdinary = true) (token : Token) :
    (r.scanning s).take token = (r.take token).map (·.scanning s) := by
  obtain ⟨_, mode, _, _, _, _, _, _⟩ := r
  cases mode with
  | content run => exact takeContent_scanning s run token
  | reference run name => exact takeReference_scanning s run name token
  | comment text => exact takeComment_scanning s text token
  | characterData text => exact takeCharacterData_scanning s text token
  | startTag mode => exact takeStartTag_scanning s mode token
  | endTag text => exact takeEndTag_scanning s text token
  | endTagGap name => exact takeEndTagGap_scanning s name token
  | instruction mode => exact nomatch ordinary
  | declaration mode => exact nomatch ordinary
  | doctype mode => exact nomatch ordinary

end Scanning

/-! ## Ordinary tokens -/

/-- Without a document type there are no entities. -/
theorem resolve?_ne_entity (name text : List Char) :
    ({} : Prolog).resolve? name ≠ some (.entity text) := by
  intro resolved
  rw [Prolog.resolve?.eq_def] at resolved
  split at resolved
  · simp at resolved
  · split at resolved
    · simp at resolved
    · simp [Prolog.entity?] at resolved

/-- Is there nothing in the way of reading character by character? -/
structure Quiet (r : Reader) : Prop where
  prolog : r.prolog = {}
  insertion : r.insertion = []
  announced : r.announced = none
  mode : r.mode.isOrdinary = true

namespace Quiet

variable {token : Token}

theorem goto (quiet : r.Quiet) {mode : Mode} (ordinary : mode.isOrdinary = true) :
    (r.goto mode).Quiet :=
  ⟨quiet.prolog, quiet.insertion, quiet.announced, ordinary⟩

/-- A token may be refused instead. -/
theorem of_ite (quiet : r.Quiet) {condition : Prop} [Decidable condition] {mode : Mode}
    (ordinary : mode.isOrdinary = true)
    (taken : (if condition then some (r.goto mode) else none) = some next) : next.Quiet := by
  obtain ⟨-, same⟩ := Option.ite_none_right_eq_some.mp taken
  cases same
  exact quiet.goto ordinary

theorem push (quiet : r.Quiet) (node : Node) : (r.push node).Quiet := by
  obtain ⟨_, _, _, _, frames, _, _, _⟩ := r
  obtain ⟨fresh, none, silent, ordinary⟩ := quiet
  cases frames <;> exact ⟨fresh, none, silent, ordinary⟩

theorem complete (quiet : r.Quiet) (e : Element) : (r.complete e).Quiet := by
  obtain ⟨_, _, _, _, frames, _, _, _⟩ := r
  obtain ⟨fresh, none, silent, ordinary⟩ := quiet
  cases frames <;> exact ⟨fresh, none, silent, ordinary⟩

theorem endRun (quiet : r.Quiet) (run : Run) : (r.endRun run).Quiet := by
  rw [Reader.endRun]
  split
  · exact quiet
  · exact quiet.push _

theorem takeMarkup (quiet : r.Quiet) (ordinary : token.isOrdinary = true)
    (taken : r.takeMarkup token = some next) : next.Quiet := by
  obtain ⟨fresh, none, silent, -⟩ := quiet
  cases token <;> simp only [Reader.takeMarkup, Option.ite_none_left_eq_some] at taken
  case openInstruction | openDoctype => cases ordinary
  case openTag | openComment =>
      obtain rfl := Option.some.inj taken
      exact ⟨fresh, none, silent, rfl⟩
  case openEndTag | openCharacterData =>
      obtain rfl := Option.some.inj taken.2
      exact ⟨fresh, none, silent, rfl⟩
  all_goals cases taken

theorem takeChar (quiet : r.Quiet) {run : Run} {c : Char}
    (taken : r.takeChar run c = some next) : next.Quiet := by
  obtain ⟨fresh, none, silent, -⟩ := quiet
  rw [Reader.takeChar] at taken
  repeat' split at taken
  all_goals cases taken
  all_goals exact ⟨fresh, none, silent, rfl⟩

theorem takeContent (quiet : r.Quiet) {run : Run} (ordinary : token.isOrdinary = true)
    (taken : r.takeContent run token = some next) : next.Quiet := by
  by_cases idle : isIdleMark token = true
  · rw [takeContent_of_isIdleMark r run idle, Option.ite_none_left_eq_some] at taken
    cases taken.2
    exact quiet.goto rfl
  · cases token with
    | char c => exact quiet.takeChar taken
    | ampersand =>
        rw [takeContent_ampersand, Option.ite_none_left_eq_some] at taken
        cases taken.2
        exact quiet.goto rfl
    | _ =>
        first
        | exact absurd rfl idle
        | exact (quiet.endRun run).takeMarkup ordinary taken

theorem takeReference (quiet : r.Quiet) {run : Run} {name : List Char}
    (taken : r.takeReference run name token = some next) : next.Quiet := by
  cases token with
  | char c => exact quiet.of_ite rfl taken
  | semicolon =>
      rw [takeReference_semicolon, quiet.prolog] at taken
      split at taken
      · cases taken
        exact quiet.goto rfl
      · exact absurd ‹_› (resolve?_ne_entity _ _)
      · cases taken
  | _ => cases taken

theorem takeComment (quiet : r.Quiet) {text : List Char}
    (taken : r.takeComment text token = some next) : next.Quiet := by
  cases token with
  | char c => exact quiet.of_ite rfl taken
  | closeComment =>
      cases taken
      exact (quiet.push _).goto rfl
  | _ => cases taken

theorem takeCharacterData (quiet : r.Quiet) {text : List Char}
    (taken : r.takeCharacterData text token = some next) : next.Quiet := by
  cases token with
  | char c => exact quiet.of_ite rfl taken
  | closeCharacterData =>
      cases taken
      exact (quiet.push _).goto rfl
  | _ => cases taken

theorem openElement (quiet : r.Quiet) {head : TagHead} {isEmpty : Bool}
    (taken : r.openElement head isEmpty = some next) : next.Quiet := by
  rw [Reader.openElement] at taken
  repeat' split at taken
  all_goals cases taken
  · exact (quiet.complete _).goto rfl
  · exact ⟨quiet.prolog, quiet.insertion, quiet.announced, rfl⟩

theorem takeStartTag (quiet : r.Quiet) {mode : TagMode}
    (taken : r.takeStartTag mode token = some next) : next.Quiet := by
  rw [Reader.takeStartTag] at taken
  split at taken
  · cases taken
  · cases taken
    exact quiet.goto rfl
  · exact quiet.openElement taken

theorem closeElement (quiet : r.Quiet) {name : QName}
    (taken : r.closeElement name = some next) : next.Quiet := by
  rw [Reader.closeElement] at taken
  split at taken
  · cases taken
  · split at taken
    all_goals cases taken
    refine (Quiet.complete ?_ _).goto rfl
    exact ⟨quiet.prolog, quiet.insertion, quiet.announced, quiet.mode⟩

theorem takeEndTag (quiet : r.Quiet) {text : List Char}
    (taken : r.takeEndTag text token = some next) : next.Quiet := by
  cases token with
  | char c =>
      by_cases name : isNameChar c = true
      · rw [takeEndTag_char, if_pos name] at taken
        cases taken
        exact quiet.goto rfl
      · rw [takeEndTag_char, if_neg name, Option.ite_none_right_eq_some] at taken
        obtain ⟨name, -, rfl⟩ := Option.map_eq_some_iff.mp taken.2
        exact quiet.goto rfl
  | closeTag =>
      obtain ⟨name, -, closed⟩ := Option.bind_eq_some_iff.mp taken
      exact quiet.closeElement closed
  | _ => cases taken

theorem takeEndTagGap (quiet : r.Quiet) {name : QName}
    (taken : r.takeEndTagGap name token = some next) : next.Quiet := by
  cases token with
  | char c =>
      rw [takeEndTagGap_char, Option.ite_none_right_eq_some] at taken
      cases taken.2
      exact quiet
  | closeTag => exact quiet.closeElement taken
  | _ => cases taken

/-- Ordinary tokens leave the reader quiet. -/
theorem take (quiet : r.Quiet) (ordinary : token.isOrdinary = true)
    (taken : r.take token = some next) : next.Quiet := by
  have mode := quiet.mode
  rw [Reader.take] at taken
  split at taken
  · exact quiet.takeContent ordinary taken
  · exact quiet.takeReference taken
  · exact quiet.takeComment taken
  · exact quiet.takeCharacterData taken
  · simp_all [Mode.isOrdinary]
  · simp_all [Mode.isOrdinary]
  · simp_all [Mode.isOrdinary]
  · exact quiet.takeStartTag taken
  · exact quiet.takeEndTag taken
  · exact quiet.takeEndTagGap taken

/-- So do several of them, in the same way for each state of the scanner. -/
theorem foldlM_take (quiet : r.Quiet) {tokens : List Token}
    (ordinary : tokens.all Token.isOrdinary = true)
    (taken : tokens.foldlM Reader.take r = some next) :
    next.Quiet ∧ ∀ s, tokens.foldlM Reader.take (r.scanning s) = some (next.scanning s) := by
  induction tokens generalizing r with
  | nil =>
      cases taken
      exact ⟨quiet, fun _ => rfl⟩
  | cons token tokens ih =>
      obtain ⟨here, rest⟩ := Bool.and_eq_true_iff.mp ordinary
      rw [List.foldlM_cons, Option.bind_eq_bind, Option.bind_eq_some_iff] at taken
      obtain ⟨middle, first, others⟩ := taken
      obtain ⟨next_quiet, all⟩ := ih (quiet.take here first) rest others
      refine ⟨next_quiet, fun s => ?_⟩
      have first_scanning : (r.scanning s).take token = some (middle.scanning s) := by
        rw [take_scanning s quiet.mode, first]
        rfl
      rw [foldlM_cons_some first_scanning, all s]

end Quiet

/-- A character that brings ordinary tokens is read as these. -/
theorem Quiet.feed_scanning (quiet : r.Quiet) {s last : Scanner} {c : Char} {tokens : List Token}
    (stepped : s.step c = some (last, tokens)) (ordinary : tokens.all Token.isOrdinary = true)
    (taken : tokens.foldlM Reader.take r = some next) :
    (r.scanning s).feed c = some (next.scanning last) := by
  obtain ⟨next_quiet, all⟩ := quiet.foldlM_take ordinary taken
  have step : (r.scanning s).step c = some (next.scanning last) := by
    rw [step, scanning, stepped]
    exact all last
  have no_entity : (next.scanning last).insertion.isEmpty = true :=
    List.isEmpty_iff.mpr next_quiet.insertion
  rw [feed, expansionLimit, readWithin, readWith, step]
  simp [no_entity, readWith]

end Reader

namespace Session

/-- A character that is no line end is passed on to the reader, which names no encoding. -/
theorem feedChar_bind_settle {decoder : Decoder} {reader next : Reader} {c : Char}
    (fed : reader.feed c = some next) (silent : next.announced = none) (no_return : c ≠ '\r') :
    (feedChar ⟨decoder, false, reader⟩ c).bind settle = some ⟨decoder, false, next⟩ := by
  simp [feedChar, settle, fed, silent, no_return]

/-- The bytes of a text that brings ordinary tokens are read as these. -/
theorem foldlM_feed {r next : Reader} {s last : Scanner} {cs : List Char} {tokens : List Token}
    (quiet : r.Quiet) (scanned : s.scan cs = some (last, tokens))
    (ordinary : tokens.all Token.isOrdinary = true)
    (taken : tokens.foldlM Reader.take r = some next) (no_return : '\r' ∉ cs) :
    (cs.flatMap String.utf8EncodeChar).foldlM feed ⟨.utf8 false 0 0 0, false, r.scanning s⟩ =
      some ⟨.utf8 false 0 0 0, false, next.scanning last⟩ := by
  induction cs generalizing r s tokens with
  | nil =>
      obtain ⟨rfl, rfl⟩ : s = last ∧ [] = tokens := by simpa [Scanner.scan] using scanned
      cases taken
      rfl
  | cons c cs ih =>
      simp only [Scanner.scan, Option.bind_eq_some_iff, Option.map_eq_some_iff] at scanned
      obtain ⟨⟨middle, first⟩, stepped, ⟨end_, others⟩, rest, joined⟩ := scanned
      obtain ⟨rfl, rfl⟩ : end_ = last ∧ first ++ others = tokens := by
        simpa [Scanned.after] using joined
      rw [List.all_append] at ordinary
      obtain ⟨first_ordinary, others_ordinary⟩ := Bool.and_eq_true_iff.mp ordinary
      rw [List.foldlM_append, Option.bind_eq_bind, Option.bind_eq_some_iff] at taken
      obtain ⟨between, first_taken, others_taken⟩ := taken
      obtain ⟨between_quiet, -⟩ := quiet.foldlM_take first_ordinary first_taken
      have fed := quiet.feed_scanning stepped first_ordinary first_taken
      obtain ⟨differ, no_more⟩ := not_or.mp (mt List.mem_cons.mpr no_return)
      have here : (String.utf8EncodeChar c).foldlM feed
          ⟨.utf8 false 0 0 0, false, r.scanning s⟩ =
            some ⟨.utf8 false 0 0 0, false, between.scanning middle⟩ := by
        rw [foldlM_feed_utf8EncodeChar rfl]
        exact feedChar_bind_settle fed between_quiet.announced (Ne.symm differ)
      rw [List.flatMap_cons, foldlM_append_some here]
      exact ih between_quiet rest others_ordinary others_taken no_more

end Session

end SymbolFont.Markup
