/-
# One token at a time

What the machines of ordinary markup do with the tokens that they can go on with.  Each rule
holds by computation.  Proofs about the reader use the rules and do not open the machines.
-/

import Mathlib.Tactic.Common
import SymbolFont.Markup.Reader

namespace SymbolFont.Markup

/-! ## Values -/

namespace Quoted

variable {p : Prolog} {mark : Char} {text : List Char}

/-- The mark that a value began with ends it. -/
theorem take_inside_quote : (Quoted.inside mark text).take p (.quote mark) =
    some (.done text.reverse) :=
  if_pos rfl

/-- A legal character is added to the value; white space counts as a space. -/
theorem take_inside_char {c : Char} (legal : p.version.allowsLiteral c = true) :
    (Quoted.inside mark text).take p (.char c) =
      some (.more (.inside mark ((if isSpace c then ' ' else c) :: text))) :=
  if_pos legal

end Quoted

/-! ## Start tags -/

namespace TagMode

variable {p : Prolog} {head : TagHead} {text : List Char}

theorem take_name_char (c : Char) :
    (TagMode.name text).take p (.char c) =
      if isNameChar c then some (.more (.name (c :: text)))
      else if isSpace c then (TagHead.ofName? text).map fun head => .more (.gap head)
      else none :=
  rfl

theorem take_gap_char (c : Char) :
    (TagMode.gap head).take p (.char c) =
      if isSpace c then some (.more (.gap head))
      else if isNameStart c then some (.more (.attribute head [c]))
      else none :=
  rfl

theorem take_attribute_char (c : Char) :
    (TagMode.attribute head text).take p (.char c) =
      if isNameChar c then some (.more (.attribute head (c :: text)))
      else if isSpace c then (head.named text).map fun key => .more (.equals head key)
      else none :=
  rfl

theorem take_equals_char (key : QName) (c : Char) :
    (TagMode.equals head key).take p (.char c) =
      if isSpace c then some (.more (.equals head key)) else none :=
  rfl

theorem take_valued_char (c : Char) :
    (TagMode.valued head).take p (.char c) =
      if isSpace c then some (.more (.gap head)) else none :=
  rfl

/-- A character of a name goes on with the name of the element. -/
theorem take_name_of_isNameChar {c : Char} (name : isNameChar c = true) :
    (TagMode.name text).take p (.char c) = some (.more (.name (c :: text))) :=
  if_pos name

/-- White space ends the name of the element. -/
theorem take_name_of_isSpace {c : Char} (space : isSpace c = true)
    (no_name : isNameChar c = false) :
    (TagMode.name text).take p (.char c) =
      (TagHead.ofName? text).map fun head => .more (.gap head) :=
  (if_neg (ne_true_of_eq_false no_name)).trans (if_pos space)

/-- So does the end of the tag. -/
theorem take_name_closeTag : (TagMode.name text).take p .closeTag =
    (TagHead.ofName? text).bind fun head => some (.done (head, false)) :=
  rfl

/-- Of the other tokens only the ends of a tag go on behind white space. -/
theorem take_gap_mark {token : Token} (no_char : ∀ c, token ≠ .char c) :
    (TagMode.gap head).take p token = head.close token := by
  cases token
  case char c => exact absurd rfl (no_char c)
  all_goals rfl

/-- So it is behind the value of an attribute. -/
theorem take_valued_mark {token : Token} (no_char : ∀ c, token ≠ .char c) :
    (TagMode.valued head).take p token = head.close token := by
  cases token
  case char c => exact absurd rfl (no_char c)
  all_goals rfl

/-- A name begins that of an attribute. -/
theorem take_gap_of_isNameStart {c : Char} (no_space : isSpace c = false)
    (starts : isNameStart c = true) :
    (TagMode.gap head).take p (.char c) = some (.more (.attribute head [c])) :=
  (if_neg (ne_true_of_eq_false no_space)).trans (if_pos starts)

/-- A character of a name goes on with the name of the attribute. -/
theorem take_attribute_of_isNameChar {c : Char} (name : isNameChar c = true) :
    (TagMode.attribute head text).take p (.char c) = some (.more (.attribute head (c :: text))) :=
  if_pos name

/-- An equals sign ends the name of an attribute. -/
theorem take_attribute_equals {key : QName} (named : head.named text = some key) :
    (TagMode.attribute head text).take p .equals = some (.more (.value head key .awaiting)) :=
  congrArg (Option.map _) named

/-- A value is read by its own machine. -/
theorem take_value (key : QName) (quoted : Quoted) (token : Token) :
    (TagMode.value head key quoted).take p token =
      match quoted.take p token with
      | none => none
      | some (.more quoted) => some (.more (.value head key quoted))
      | some (.done content) =>
          (head.add key (String.ofList content)).map fun head => .more (.valued head) :=
  rfl

/-- A value goes on. -/
theorem take_value_more {key : QName} {quoted next : Quoted} {token : Token}
    (taken : quoted.take p token = some (.more next)) :
    (TagMode.value head key quoted).take p token = some (.more (.value head key next)) := by
  rw [take_value, taken]

/-- A value ends. -/
theorem take_value_done {key : QName} {quoted : Quoted} {token : Token} {content : List Char}
    (taken : quoted.take p token = some (.done content)) :
    (TagMode.value head key quoted).take p token =
      (head.add key (String.ofList content)).map fun head => .more (.valued head) := by
  rw [take_value, taken]

end TagMode

/-! ## Content -/

namespace Reader

variable (r : Reader)

theorem takeContent_ampersand (run : Run) :
    r.takeContent run .ampersand =
      if r.frames.isEmpty then none else some (r.goto (.reference run [])) :=
  rfl

/-- A mark without a meaning is text. -/
theorem takeContent_of_isIdleMark (run : Run) {token : Token} (idle : isIdleMark token = true) :
    r.takeContent run token =
      if r.frames.isEmpty then none else some (r.goto (.content (run.addMarks token.text))) := by
  cases token
  all_goals first | rfl | exact nomatch idle

/-- Any other mark begins markup, or nothing. -/
theorem takeContent_markup (run : Run) {token : Token} (no_char : ∀ c, token ≠ .char c)
    (no_reference : token ≠ .ampersand) (no_idle : isIdleMark token = false) :
    r.takeContent run token = (r.endRun run).takeMarkup token := by
  cases token
  case char c => exact absurd rfl (no_char c)
  case ampersand => exact absurd rfl no_reference
  all_goals first | rfl | exact nomatch no_idle

theorem takeReference_char (run : Run) (name : List Char) (c : Char) :
    r.takeReference run name (.char c) =
      if continuesReference name c then some (r.goto (.reference run (c :: name))) else none :=
  rfl

theorem takeReference_semicolon (run : Run) (name : List Char) :
    r.takeReference run name .semicolon =
      match r.prolog.resolve? name.reverse with
      | some (.character x) => some (r.goto (.content (run.add x)))
      | some (.entity text) => some { r with mode := .content run.addEntity, insertion := text }
      | none => none :=
  rfl

theorem takeComment_char (text : List Char) (c : Char) :
    r.takeComment text (.char c) =
      if r.prolog.version.allows c then some (r.goto (.comment (c :: text))) else none :=
  rfl

theorem takeComment_closeComment (text : List Char) :
    r.takeComment text .closeComment =
      some ((r.push (.comment (String.ofList text.reverse))).goto (.content {})) :=
  rfl

theorem takeCharacterData_char (text : List Char) (c : Char) :
    r.takeCharacterData text (.char c) =
      if r.prolog.version.allows c then some (r.goto (.characterData (c :: text))) else none :=
  rfl

theorem takeCharacterData_closeCharacterData (text : List Char) :
    r.takeCharacterData text .closeCharacterData =
      some ((r.push (.text (String.ofList text.reverse))).goto
        (.content { blank := text.all isSpace })) :=
  rfl

/-! ## End tags -/

theorem takeEndTag_char (text : List Char) (c : Char) :
    r.takeEndTag text (.char c) =
      if isNameChar c then some (r.goto (.endTag (c :: text)))
      else if isSpace c then
        (QName.ofChars? text.reverse).map fun name => r.goto (.endTagGap name)
      else none :=
  rfl

theorem takeEndTag_closeTag (text : List Char) :
    r.takeEndTag text .closeTag = (QName.ofChars? text.reverse).bind r.closeElement := rfl

theorem takeEndTagGap_char (name : QName) (c : Char) :
    r.takeEndTagGap name (.char c) = if isSpace c then some r else none := rfl

end Reader

end SymbolFont.Markup
