/-
# Reading the pieces of a document

`Reads` says that characters, wherever they stand in content, bring the reader from one
state to another.  There is one such fact for each kind of piece that a tree is written of,
and they follow one another as the pieces do.  The state of the scanner is left out: what it
holds back at the end of a piece comes out with the next one.
-/

import Mathlib.Data.List.Nodup
import Mathlib.Tactic.Common
import SymbolFont.Proofs.Markup.Reading
import SymbolFont.Proofs.Markup.Scanning

namespace SymbolFont.Markup

/-- Is the token of a kind that trees are written of?  Instructions and document types are
not. -/
def Token.isOrdinary : Token → Bool
  | .openInstruction | .openDoctype => false
  | _ => true

/-- In content, the characters bring the reader from one state to another, apart from the
state of the scanner.  None of them is a carriage return, so that line ends stay as they are. -/
def Reads (cs : List Char) (before after : Reader) : Prop :=
  '\r' ∉ cs ∧ ∃ tokens, Scans cs tokens ∧ tokens.all Token.isOrdinary = true ∧
    tokens.foldlM Reader.take before = some after

namespace Reads

variable {cs ds : List Char} {before middle after : Reader}

/-- Without characters nothing happens. -/
theorem nil (r : Reader) : Reads [] r r := ⟨List.not_mem_nil, [], .nil, rfl, rfl⟩

/-- Pieces are read one after the other. -/
theorem append (front : Reads cs before middle) (back : Reads ds middle after) :
    Reads (cs ++ ds) before after := by
  obtain ⟨no_return, first, scans, ordinary, taken⟩ := front
  obtain ⟨no_return', second, scans', ordinary', taken'⟩ := back
  refine ⟨?_, first ++ second, scans.append scans', ?_, ?_⟩
  · rw [List.mem_append]
    exact not_or.mpr ⟨no_return, no_return'⟩
  · rw [List.all_append, ordinary, ordinary', Bool.and_self]
  · rw [foldlM_append_some taken, taken']

end Reads

/-! ## Ordinary tokens -/

/-- A character that stands for itself is an ordinary token. -/
theorem isOrdinary_ofChar (c : Char) : (Token.ofChar c).isOrdinary = true := by
  rw [Token.ofChar]
  repeat' split
  all_goals rfl

/-- Characters that stand for themselves are ordinary tokens. -/
theorem all_isOrdinary_map_ofChar (cs : List Char) :
    (cs.map Token.ofChar).all Token.isOrdinary = true := by
  rw [List.all_map, List.all_eq_true]
  intro c _
  exact isOrdinary_ofChar c

/-- Characters of names are solid. -/
theorem isSolid_of_isNameChar {c : Char} (name : isNameChar c = true) : isSolid c = true := by
  have no_mark : c ≠ '<' ∧ c ≠ '>' ∧ c ≠ '/' ∧ c ≠ ']' := by
    refine ⟨?_, ?_, ?_, ?_⟩ <;> rintro rfl <;> exact absurd name (by decide)
  simp [isSolid, no_mark]

/-! ## Text -/

/-- A written text is made of its own characters and of those of the escapes. -/
theorem mem_escapedText {cs : List Char} {d : Char} (written : d ∈ escapedText cs) :
    d ∈ "&lgtamp;".toList ∨ d ∈ cs ∧ ¬(d = '<' ∨ d = '>' ∨ d = '&') := by
  obtain ⟨c, source, member⟩ := List.mem_flatMap.mp written
  by_cases escaped : c = '<' ∨ c = '>' ∨ c = '&'
  · left
    have all : (escapeInText c).all "&lgtamp;".toList.contains = true := by
      rcases escaped with rfl | rfl | rfl <;> rfl
    exact List.contains_iff_mem.mp (List.all_eq_true.mp all d member)
  · rw [escapeInText_of_not escaped, List.mem_singleton] at member
    subst member
    exact .inr ⟨source, escaped⟩

/-- A written value is made of its own characters and of those of the escapes. -/
theorem mem_escapedValue {cs : List Char} {d : Char} (written : d ∈ escapedValue cs) :
    d ∈ "&lgtquoamps#xAD;".toList ∨
      d ∈ cs ∧ ¬(d = '<' ∨ d = '>' ∨ d = '"' ∨ d = '\'' ∨ d = '&' ∨ d = '\n' ∨ d = '\r') := by
  obtain ⟨c, source, member⟩ := List.mem_flatMap.mp written
  by_cases escaped : c = '<' ∨ c = '>' ∨ c = '"' ∨ c = '\'' ∨ c = '&' ∨ c = '\n' ∨ c = '\r'
  · left
    have all : (escapeInValue c).all "&lgtquoamps#xAD;".toList.contains = true := by
      rcases escaped with rfl | rfl | rfl | rfl | rfl | rfl | rfl <;> rfl
    exact List.contains_iff_mem.mp (List.all_eq_true.mp all d member)
  · have itself : escapeInValue c = [c] := by
      simp only [not_or] at escaped
      exact escapeInValue_of_not (by simp [escaped]) escaped.2.2.2.2.2.1 escaped.2.2.2.2.2.2
    rw [itself, List.mem_singleton] at member
    subst member
    exact .inr ⟨source, escaped⟩

/-- No text holds a mark that begins or ends markup when it is written. -/
theorem no_mark_of_mem_escapedText {cs : List Char} :
    ∀ d ∈ escapedText cs, d ≠ '<' ∧ d ≠ '>' := by
  intro d written
  rcases mem_escapedText written with escape | ⟨-, no_mark⟩
  · constructor <;> rintro rfl <;> exact absurd escape (by decide)
  · simp only [not_or] at no_mark
    exact ⟨no_mark.1, no_mark.2.1⟩

/-- No value holds such a mark when it is written. -/
theorem no_mark_of_mem_escapedValue (cs : List Char) :
    ∀ d ∈ escapedValue cs, d ≠ '<' ∧ d ≠ '>' := by
  intro d written
  rcases mem_escapedValue written with escape | ⟨-, no_mark⟩
  · constructor <;> rintro rfl <;> exact absurd escape (by decide)
  · simp only [not_or] at no_mark
    exact ⟨no_mark.1, no_mark.2.1⟩

/-- A plain text has no carriage returns. -/
theorem no_return_of_isPlainText {cs : List Char} (plain : isPlainText cs = true) : '\r' ∉ cs := by
  intro member
  exact absurd (List.all_eq_true.mp plain '\r' member) (by decide)

/-- Nor has it any when it is written. -/
theorem no_return_escapedText {cs : List Char} (plain : isPlainText cs = true) :
    '\r' ∉ escapedText cs := by
  intro written
  rcases mem_escapedText written with escape | ⟨member, -⟩
  · exact absurd escape (by decide)
  · exact no_return_of_isPlainText plain member

/-- A value has none when it is written. -/
theorem no_return_escapedValue (cs : List Char) : '\r' ∉ escapedValue cs := by
  intro written
  rcases mem_escapedValue written with escape | ⟨-, no_mark⟩
  · exact absurd escape (by decide)
  · simp at no_mark

/-- A plain name has none. -/
theorem no_return_of_isPlainName {name : String} (plain : isPlainName name = true) :
    '\r' ∉ name.toList := by
  intro member
  exact absurd (List.all_eq_true.mp (all_isNameChar_of_isPlainName plain) '\r' member) (by decide)

namespace Lands

variable {cs : List Char} {tokens : List Token}

/-- Solid characters stand for themselves. -/
theorem append_solid (front : Lands cs tokens) {ds : List Char} (solid : ds.all isSolid = true) :
    Lands (cs ++ ds) (tokens ++ ds.map .ofChar) := by
  induction ds generalizing cs tokens with
  | nil => simpa using front
  | cons d ds ih =>
      obtain ⟨here, rest⟩ := Bool.and_eq_true_iff.mp solid
      have joined := ih (front.append (.char here)) rest
      simpa using joined

/-- Behind a piece, a name stands for itself. -/
theorem append_name (front : Lands cs tokens) {name : List Char}
    (all : name.all isNameChar = true) : Lands (cs ++ name) (tokens ++ name.map .ofChar) := by
  apply front.append_solid
  rw [List.all_eq_true] at all ⊢
  exact fun c member => isSolid_of_isNameChar (all c member)

/-- Behind a piece, an attribute stands for itself. -/
theorem append_writtenAttribute (front : Lands cs tokens) {pair : String × String}
    (key_plain : isPlainName pair.1 = true) :
    Lands (cs ++ writtenAttribute pair) (tokens ++ (writtenAttribute pair).map .ofChar) := by
  have space := front.append (.char (c := ' ') rfl)
  have key := space.append_name (all_isNameChar_of_isPlainName key_plain)
  have equals := key.append_solid (show ['=', '"'].all isSolid = true from rfl)
  have value := equals.scans.append (.chars (no_mark_of_mem_escapedValue pair.2.toList))
  have mark := value.lands (.char (c := '"') rfl)
  simpa [writtenAttribute] using mark

/-- Behind a piece, attributes stand for themselves. -/
theorem append_writtenAttributes (front : Lands cs tokens) {attributes : Attributes}
    (plain : ∀ pair ∈ attributes, isPlainName pair.1 = true) :
    Lands (cs ++ attributes.flatMap writtenAttribute)
      (tokens ++ (attributes.flatMap writtenAttribute).map .ofChar) := by
  induction attributes generalizing cs tokens with
  | nil => simpa using front
  | cons pair attributes ih =>
      obtain ⟨here, rest⟩ := List.forall_mem_cons.mp plain
      have joined := ih (front.append_writtenAttribute here) rest
      simpa using joined

end Lands

/-- A start tag as it is written, up to its end. -/
def writtenTag (name : String) (attributes : Attributes) : List Char :=
  '<' :: name.toList ++ attributes.flatMap writtenAttribute

/-- The keys of attributes that are kept are plain. -/
theorem plain_of_mem_attributes {attributes : Attributes}
    (kept : areKeptAttributes attributes = true) :
    ∀ pair ∈ attributes, isPlainName pair.1 = true := by
  intro pair member
  have pair_kept := List.all_eq_true.mp (Bool.and_eq_true_iff.mp kept).2 pair member
  simp only [Bool.and_eq_true] at pair_kept
  exact pair_kept.1.1

/-- An attribute with a plain key has no carriage returns. -/
theorem no_return_writtenAttribute {pair : String × String}
    (key_plain : isPlainName pair.1 = true) : '\r' ∉ writtenAttribute pair := by
  simp [writtenAttribute, no_return_of_isPlainName key_plain, no_return_escapedValue]

/-- A plain start tag has none. -/
theorem no_return_writtenTag {name : String} {attributes : Attributes}
    (name_plain : isPlainName name = true) (kept : areKeptAttributes attributes = true) :
    '\r' ∉ writtenTag name attributes := by
  have in_attributes : '\r' ∉ attributes.flatMap writtenAttribute := by
    intro written
    obtain ⟨pair, member, inside⟩ := List.mem_flatMap.mp written
    exact no_return_writtenAttribute (plain_of_mem_attributes kept pair member) inside
  simp [writtenTag, no_return_of_isPlainName name_plain, in_attributes]

/-- The tokens of a start tag. -/
theorem lands_writtenTag {name : String} {attributes : Attributes}
    (name_plain : isPlainName name = true) (kept : areKeptAttributes attributes = true) :
    Lands (writtenTag name attributes)
      (.openTag :: (name.toList ++ attributes.flatMap writtenAttribute).map .ofChar) := by
  obtain ⟨first, rest, chars, -, all, -⟩ := exists_of_isPlainName name_plain
  obtain ⟨first_name, rest_names⟩ := Bool.and_eq_true_iff.mp all
  have joined := ((Lands.openTag first_name).append_name rest_names).append_writtenAttributes
    (plain_of_mem_attributes kept)
  simpa [writtenTag, chars, ofChar_of_isNameChar first_name] using joined

/-! ## Start tags -/

namespace Reader

variable {r : Reader}

/-- The reader behind the beginning of an element. -/
def enter (r : Reader) : Reader := { r with stage := .body }

@[simp] theorem goto_goto (mode next : Mode) : (r.goto mode).goto next = r.goto next := rfl

@[simp] theorem frames_goto (mode : Mode) : (r.goto mode).frames = r.frames := rfl

/-- Adding a node does not depend on what is read. -/
@[simp] theorem goto_push (mode : Mode) (node : Node) :
    (r.goto mode).push node = (r.push node).goto mode := by
  obtain ⟨_, _, _, _, frames, _, _, _⟩ := r
  cases frames <;> rfl

/-- Ending a run of text does not depend on what is read. -/
@[simp] theorem goto_endRun (mode : Mode) (run : Run) :
    (r.goto mode).endRun run = (r.endRun run).goto mode := by
  rw [endRun, endRun]
  split
  · rfl
  · exact goto_push _ _

/-- Ending an element does not depend on what is read. -/
@[simp] theorem goto_complete (mode : Mode) (e : Element) :
    (r.goto mode).complete e = (r.complete e).goto mode := by
  obtain ⟨_, _, _, _, frames, _, _, _⟩ := r
  cases frames <;> rfl

@[simp] theorem prolog_push (node : Node) : (r.push node).prolog = r.prolog := by
  obtain ⟨_, _, _, _, frames, _, _, _⟩ := r
  cases frames <;> rfl

@[simp] theorem prolog_endRun (run : Run) : (r.endRun run).prolog = r.prolog := by
  rw [endRun]
  split
  · rfl
  · exact prolog_push _

/-- An element stays open when a node is added to it. -/
theorem Inside.push (inside : r.Inside) (node : Node) : (r.push node).Inside := by
  obtain ⟨_, _, stage, prolog, frames, _, _, _⟩ := r
  obtain ⟨fresh, body, somewhere⟩ := inside
  obtain ⟨frame, frames, rfl⟩ := List.exists_cons_of_ne_nil somewhere
  exact ⟨fresh, body, List.cons_ne_nil _ _⟩

/-- An element stays open when a run of text ends. -/
theorem Inside.endRun (inside : r.Inside) (run : Run) : (r.endRun run).Inside := by
  rw [Reader.endRun]
  split
  · exact inside
  · exact inside.push _

/-- Markup begins behind the text before it. -/
theorem take_markup (run : Run) {token : Token} (no_char : ∀ c, token ≠ .char c)
    (no_reference : token ≠ .ampersand) (no_idle : isIdleMark token = false) :
    (r.goto (.content run)).take token = ((r.endRun run).goto (.content run)).takeMarkup token := by
  rw [← goto_endRun]
  exact takeContent_markup _ run no_char no_reference no_idle

/-- The name of a tag has been read. -/
theorem expects_name {name : String} (plain : isPlainName name = true) :
    (TagMode.name name.toList.reverse).Expects (.plain name []) := by
  have head : TagHead.ofName? name.toList.reverse = some (.plain name []) := by
    rw [TagHead.ofName?, List.reverse_reverse, ofChars?_of_isPlainName plain]
    rfl
  constructor
  · rw [TagMode.take_name_of_isSpace rfl (by decide), head]
    rfl
  · rw [TagMode.take_name_closeTag, head]
    rfl

/-- A start tag up to its end. -/
theorem take_writtenTag (fresh : r.prolog = {}) (run : Run) {name : String}
    {attributes : Attributes} (name_plain : isPlainName name = true)
    (kept : areKeptAttributes attributes = true) :
    ∃ mode : TagMode, mode.Expects (.plain name attributes) ∧
      (Token.openTag :: (name.toList ++ attributes.flatMap writtenAttribute).map .ofChar).foldlM
        take (r.goto (.content run)) = some ((r.endRun run).enter.goto (.startTag mode)) := by
  have opens : (r.goto (.content run)).take .openTag =
      some ((r.endRun run).enter.goto (.startTag (.name []))) := by
    rw [take_markup run (by simp) (by simp) rfl]
    rfl
  have gathers : ∀ text c, isNameChar c = true →
      ((r.endRun run).enter.goto (.startTag (.name text))).take (.ofChar c) =
        some ((r.endRun run).enter.goto (.startTag (.name (c :: text)))) := by
    intro text c is_name
    apply take_startTag
    rw [ofChar_of_isNameChar is_name]
    exact TagMode.take_name_of_isNameChar is_name
  have fresh_inside : (r.endRun run).enter.prolog = {} := by
    rw [← fresh]
    exact prolog_endRun run
  have named := take_gathered gathers (all_isNameChar_of_isPlainName name_plain) []
  rw [List.append_nil] at named
  obtain ⟨mode, expects, taken⟩ :=
    take_writtenAttributes fresh_inside (expects_name name_plain) kept
  refine ⟨mode, expects, ?_⟩
  rw [foldlM_cons_some opens, List.map_append, foldlM_append_some named, taken]

/-- All names of a plain start tag are bound, having no qualifiers. -/
theorem isBound_plain (name : String) (attributes : Attributes) (bindings : Bindings) :
    (TagHead.plain name attributes).isBound bindings = true := by
  simp [TagHead.isBound, TagHead.plain, QName.isBound, List.all_eq_true]

/-- The attributes of a plain start tag differ, as their keys do. -/
theorem isDistinct_plain (name : String) {attributes : Attributes}
    (distinct : (attributes.map Prod.fst).Nodup) (bindings : Bindings) :
    (TagHead.plain name attributes).isDistinct bindings = true := by
  have meanings : ((TagHead.plain name attributes).attributes.map
      fun (pair : QName × String) => pair.1.meaning bindings) =
        ((attributes.map Prod.fst).map (Prod.mk none)).reverse := by
    rw [TagHead.plain, List.map_reverse, List.map_map, List.map_map]
    rfl
  have injective : Function.Injective (Prod.mk none : String → Option String × String) := by
    intro key other same
    exact congrArg Prod.snd same
  rw [TagHead.isDistinct, decide_eq_true_eq]
  show (List.map (fun (pair : QName × String) => pair.1.meaning bindings) _).Nodup
  rw [meanings, List.nodup_reverse]
  exact distinct.map injective

/-- The attributes of a plain start tag are kept in their order. -/
theorem localAttributes_plain (name : String) (attributes : Attributes) :
    (TagHead.plain name attributes).localAttributes = attributes := by
  rw [TagHead.localAttributes, TagHead.plain, List.map_reverse, List.reverse_reverse, List.map_map]
  exact List.map_id attributes

/-- Opening an element does not depend on what was read. -/
theorem goto_openElement (mode : Mode) (head : TagHead) (isEmpty : Bool) :
    (r.goto mode).openElement head isEmpty = r.openElement head isEmpty := by
  rw [openElement, openElement, goto_complete]
  rfl

/-- A token that ends a start tag. -/
theorem take_startTag_done {mode : TagMode} {token : Token} {head : TagHead} {isEmpty : Bool}
    (taken : mode.take r.prolog token = some (.done (head, isEmpty))) :
    (r.goto (.startTag mode)).take token = r.openElement head isEmpty := by
  rw [← goto_openElement (.startTag mode), take]
  simp [goto, takeStartTag, taken]

/-- The reader in an element that has just been opened. -/
def opened (r : Reader) (name : String) (attributes : Attributes) : Reader :=
  { r with
    mode := .content {}
    frames := { name := ⟨none, name⟩, attributes, bindings := r.bindings } :: r.frames }

/-- A plain start tag opens an element. -/
theorem openElement_plain (name : String) {attributes : Attributes}
    (kept : areKeptAttributes attributes = true) :
    r.openElement (.plain name attributes) false = some (r.opened name attributes) := by
  have distinct := of_decide_eq_true (Bool.and_eq_true_iff.mp kept).1
  rw [openElement, isBound_plain, isDistinct_plain name distinct, localAttributes_plain]
  rfl

/-- A plain tag without content completes an element. -/
theorem openElement_plain_empty (name : String) {attributes : Attributes}
    (kept : areKeptAttributes attributes = true) :
    r.openElement (.plain name attributes) true =
      some ((r.complete ⟨name, attributes, []⟩).goto (.content {})) := by
  have distinct := of_decide_eq_true (Bool.and_eq_true_iff.mp kept).1
  rw [openElement, isBound_plain, isDistinct_plain name distinct, localAttributes_plain]
  rfl

/-- Closing an element does not depend on what was read. -/
theorem goto_closeElement (mode : Mode) (name : QName) :
    (r.goto mode).closeElement name = r.closeElement name := by
  obtain ⟨_, _, _, _, frames, _, _, _⟩ := r
  rcases frames with _ | ⟨_, _ | _⟩ <;> rfl

/-- Nodes are added to the innermost element, the last one first. -/
theorem foldl_push {frame : Frame} {frames : List Frame} (open_frames : r.frames = frame :: frames)
    (nodes : List Node) :
    nodes.foldl push r =
      { r with
        frames := { frame with children := nodes.reverse ++ frame.children } :: frames } := by
  induction nodes generalizing r frame with
  | nil => rw [List.foldl_nil, List.reverse_nil, List.nil_append, ← open_frames]
  | cons node nodes ih =>
      have pushed : r.push node = { r with
          frames := { frame with children := node :: frame.children } :: frames } := by
        rw [push, open_frames]
      rw [List.foldl_cons, pushed, ih rfl]
      simp

/-- An element closes with the nodes that have been added since it was opened. -/
theorem closeElement_opened (name : String) (attributes : Attributes) (nodes : List Node) :
    (nodes.foldl push (r.opened name attributes)).closeElement ⟨none, name⟩ =
      some ((r.complete ⟨name, attributes, nodes⟩).goto (.content {})) := by
  rw [foldl_push rfl, closeElement]
  simp only [if_true, List.append_nil, List.reverse_reverse, Option.some.injEq]
  have closed : ((r.goto (.content {})).complete ⟨name, attributes, nodes⟩).goto (.content {}) =
      (r.complete ⟨name, attributes, nodes⟩).goto (.content {}) := by
    rw [goto_complete, goto_goto]
  exact closed

end Reader

namespace Reads

variable {r : Reader} {name : String} {attributes : Attributes}

/-- A text is added to the text before it. -/
theorem text (inside : r.Inside) (run : Run) {cs : List Char} (plain : isPlainText cs = true) :
    Reads (escapedText cs) (r.goto (.content run))
      (r.goto (.content (cs.foldl Run.add run))) :=
  ⟨no_return_escapedText plain, _, .chars no_mark_of_mem_escapedText,
    all_isOrdinary_map_ofChar _, Reader.take_escapedText inside run plain⟩

/-- A start tag opens an element. -/
theorem startTag (fresh : r.prolog = {}) (run : Run) (name_plain : isPlainName name = true)
    (kept : areKeptAttributes attributes = true) :
    Reads (writtenTag name attributes ++ ['>']) (r.goto (.content run))
      ((r.endRun run).enter.opened name attributes) := by
  obtain ⟨mode, expects, taken⟩ := Reader.take_writtenTag fresh run name_plain kept
  have still_fresh : (r.endRun run).enter.prolog = {} := (Reader.prolog_endRun run).trans fresh
  have closes := Reader.take_startTag_done (still_fresh ▸ expects.close)
  rw [Reader.openElement_plain name kept] at closes
  refine ⟨?_, _, (lands_writtenTag name_plain kept).closeTag.scans, ?_, ?_⟩
  · simp [no_return_writtenTag name_plain kept]
  · rw [List.all_append, List.all_cons, all_isOrdinary_map_ofChar]
    rfl
  · rw [foldlM_append_some taken, foldlM_cons_some closes]
    rfl

/-- A tag without content completes an element. -/
theorem emptyTag (fresh : r.prolog = {}) (run : Run) (name_plain : isPlainName name = true)
    (kept : areKeptAttributes attributes = true) :
    Reads (writtenTag name attributes ++ [' ', '/', '>']) (r.goto (.content run))
      (((r.endRun run).enter.complete ⟨name, attributes, []⟩).goto (.content {})) := by
  obtain ⟨mode, expects, taken⟩ := Reader.take_writtenTag fresh run name_plain kept
  have still_fresh : (r.endRun run).enter.prolog = {} := (Reader.prolog_endRun run).trans fresh
  have space := Reader.take_startTag (still_fresh ▸ expects.space)
  have closes : ((r.endRun run).enter.goto (.startTag (.gap (.plain name attributes)))).take
      .closeEmptyTag = _ := Reader.take_startTag_done rfl
  rw [Reader.openElement_plain_empty name kept] at closes
  have lands := ((lands_writtenTag name_plain kept).append (.char (c := ' ') rfl)).append
    .closeEmptyTag
  rw [List.append_assoc] at lands
  refine ⟨?_, _, lands.scans, ?_, ?_⟩
  · simp [no_return_writtenTag name_plain kept]
  · rw [List.all_append, List.all_append, List.all_cons, all_isOrdinary_map_ofChar]
    rfl
  · rw [List.append_assoc, foldlM_append_some taken]
    exact (foldlM_cons_some space _).trans (foldlM_cons_some closes [])

/-- An end tag completes the element that it repeats the name of. -/
theorem endTag {outer : Reader} (run : Run) (name_plain : isPlainName name = true)
    {nodes : List Node}
    (ended : r.endRun run = nodes.foldl Reader.push (outer.opened name attributes)) :
    Reads ('<' :: '/' :: name.toList ++ ['>']) (r.goto (.content run))
      ((outer.complete ⟨name, attributes, nodes⟩).goto (.content {})) := by
  have somewhere : (r.endRun run).frames.isEmpty = false := by
    rw [ended, Reader.foldl_push rfl]
    rfl
  have opens : (r.goto (.content run)).take .openEndTag =
      some ((r.endRun run).goto (.endTag [])) := by
    rw [Reader.take_markup run (by simp) (by simp) rfl]
    simp [Reader.takeMarkup, somewhere]
  have gathers : ∀ text c, isNameChar c = true →
      ((r.endRun run).goto (.endTag text)).take (.ofChar c) =
        some ((r.endRun run).goto (.endTag (c :: text))) := by
    intro text c is_name
    rw [ofChar_of_isNameChar is_name]
    exact if_pos is_name
  have named := Reader.take_gathered gathers (all_isNameChar_of_isPlainName name_plain) []
  have closes : ((r.endRun run).goto (.endTag (name.toList.reverse ++ []))).take .closeTag =
      some ((outer.complete ⟨name, attributes, nodes⟩).goto (.content {})) := by
    rw [← Reader.closeElement_opened, ← ended,
      ← Reader.goto_closeElement (.endTag (name.toList.reverse ++ []))]
    have repeated : QName.ofChars? (name.toList.reverse ++ []).reverse = some ⟨none, name⟩ := by
      rw [List.append_nil, List.reverse_reverse, ofChars?_of_isPlainName name_plain]
    exact (Reader.takeEndTag_closeTag _ _).trans (by rw [repeated]; rfl)
  have lands := (Lands.openEndTag.append_name
    (all_isNameChar_of_isPlainName name_plain)).closeTag
  refine ⟨?_, _, lands.scans, ?_, ?_⟩
  · simp [no_return_of_isPlainName name_plain]
  · rw [List.all_append, List.all_append, all_isOrdinary_map_ofChar]
    rfl
  · rw [List.append_assoc, List.singleton_append, foldlM_cons_some opens, foldlM_append_some named]
    exact foldlM_cons_some closes []

/-- A comment becomes a node. -/
theorem comment (inside : r.Inside) (run : Run) {cs : List Char} (plain : isPlainText cs = true)
    (separate : ¬['-', '-'] <:+: cs ++ ['-']) :
    Reads ("<!--".toList ++ cs ++ "-->".toList) (r.goto (.content run))
      (((r.endRun run).push (.comment (String.ofList cs))).goto (.content {})) := by
  have opens : (r.goto (.content run)).take .openComment =
      some ((r.endRun run).goto (.comment [])) := by
    have stage := (inside.endRun run).stage
    rw [Reader.take_markup run (by simp) (by simp) rfl]
    simp [Reader.takeMarkup, Reader.goto, stage, Stage.past]
  have gathers : ∀ text c, (Version.v10.allows c && c != '\r') = true →
      ((r.endRun run).goto (.comment text)).take (.char c) =
        some ((r.endRun run).goto (.comment (c :: text))) := by
    intro text c plain
    have legal := (Bool.and_eq_true_iff.mp plain).1
    have allowed : (r.endRun run).prolog.version.allows c = true := by
      rw [(inside.endRun run).prolog]
      exact legal
    exact if_pos allowed
  have gathered := Reader.take_gathered gathers plain []
  have closes : ((r.endRun run).goto (.comment (cs.reverse ++ []))).take .closeComment =
      some (((r.endRun run).push (.comment (String.ofList cs))).goto (.content {})) := by
    have taken (text : List Char) : ((r.endRun run).goto (.comment text)).take .closeComment =
        some ((((r.endRun run).goto (.comment text)).push
          (.comment (String.ofList text.reverse))).goto (.content {})) := rfl
    rw [taken, Reader.goto_push, Reader.goto_goto, List.append_nil, List.reverse_reverse]
  refine ⟨?_, _, (Lands.comment separate).scans, ?_, ?_⟩
  · simp [no_return_of_isPlainText plain]
  · rw [List.all_append, List.all_cons, List.all_map, List.all_eq_true.mpr]
    · rfl
    · exact fun _ _ => rfl
  · rw [List.cons_append, foldlM_cons_some opens, foldlM_append_some gathered]
    exact foldlM_cons_some closes []

end Reads

end SymbolFont.Markup
