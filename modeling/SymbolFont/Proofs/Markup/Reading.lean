/-
# Reading text and attributes

What the tokens of a written text, of a name and of the attributes in a start tag do to the
reader.  Escapes come back as the characters that they were made from, so that texts and
values are read as they were.
-/

import Mathlib.Tactic.Common
import Mathlib.Data.List.TakeWhile
import SymbolFont.Markup.Printer
import SymbolFont.Proofs.Markup.Encoding
import SymbolFont.Proofs.Markup.Normal
import SymbolFont.Proofs.Markup.Taking

namespace SymbolFont.Markup

/-- A character that is no mark stands for itself. -/
theorem ofChar_of_ne {c : Char} (no_tag : c ≠ '<' ∧ c ≠ '&')
    (no_mark : c ≠ '>' ∧ c ≠ '=' ∧ c ≠ ';' ∧ c ≠ '"' ∧ c ≠ '\'') : Token.ofChar c = .char c := by
  simp [Token.ofChar, no_tag, no_mark]

/-- Characters of names have no meaning as marks. -/
theorem ofChar_of_isNameChar {c : Char} (name : isNameChar c = true) :
    Token.ofChar c = .char c := by
  apply ofChar_of_ne
  · constructor <;> rintro rfl <;> exact absurd name (by decide)
  · refine ⟨?_, ?_, ?_, ?_, ?_⟩ <;> rintro rfl <;> exact absurd name (by decide)

/-! ## Text -/

/-- A text as it is written. -/
def escapedText (cs : List Char) : List Char := cs.flatMap escapeInText

/-- A value as it is written. -/
def escapedValue (cs : List Char) : List Char := cs.flatMap escapeInValue

/-- In text, all but three characters stand for themselves. -/
theorem escapeInText_of_not {c : Char} (plain : ¬(c = '<' ∨ c = '>' ∨ c = '&')) :
    escapeInText c = [c] := by
  rw [escapeInText.eq_def]
  split <;> simp_all

/-- In values, all but five characters stand for themselves, line ends apart. -/
theorem escapeInValue_of_not {c : Char}
    (plain : ¬(c = '<' ∨ c = '>' ∨ c = '"' ∨ c = '\'' ∨ c = '&')) (no_feed : c ≠ '\n')
    (no_return : c ≠ '\r') : escapeInValue c = [c] := by
  rw [escapeInValue.eq_def]
  split <;> simp_all

/-- Is the reader in an element, behind the beginning of the document? -/
structure Reader.Inside (r : Reader) : Prop where
  prolog : r.prolog = {}
  stage : r.stage = .body
  frames : r.frames ≠ []

namespace Reader

variable {r : Reader}

/-- A legal character that has no escape is added to the text. -/
theorem take_ofChar_content (inside : r.Inside) (run : Run) {c : Char}
    (legal : Version.v10.allows c = true) (no_open : c ≠ '<') (no_amp : c ≠ '&') :
    (r.goto (.content run)).take (.ofChar c) = some (r.goto (.content (run.add c))) := by
  have somewhere : (r.goto (.content run)).frames.isEmpty = false :=
    List.isEmpty_eq_false_iff.mpr inside.frames
  by_cases mark : c = '>' ∨ c = '=' ∨ c = ';' ∨ c = '"' ∨ c = '\''
  · have idle : isIdleMark (.ofChar c) = true ∧ (Token.ofChar c).text = [c] ∧
        isSpace c = false := by
      rcases mark with rfl | rfl | rfl | rfl | rfl <;> exact ⟨rfl, rfl, rfl⟩
    obtain ⟨idle, itself, no_space⟩ := idle
    have added : run.addMarks [c] = run.add c := by
      rw [Run.add, no_space, Bool.and_false]
      rfl
    have taken := takeContent_of_isIdleMark (r.goto (.content run)) run idle
    rw [somewhere, itself, added] at taken
    exact taken
  · simp only [not_or] at mark
    have allowed : r.prolog.version.allowsLiteral c = true := by
      rw [inside.prolog]
      exact legal
    rw [ofChar_of_ne ⟨no_open, no_amp⟩ mark]
    calc (r.goto (.content run)).take (.char c)
      _ = (r.goto (.content run)).takeChar run c := rfl
      _ = some (r.goto (.content (run.add c))) := by
        rw [takeChar, somewhere]
        exact if_pos allowed

/-- A character in its escape is added to the text. -/
theorem take_escapeInText (inside : r.Inside) (run : Run) {c : Char}
    (legal : Version.v10.allows c = true) :
    ((escapeInText c).map Token.ofChar).foldlM take (r.goto (.content run)) =
      some (r.goto (.content (run.add c))) := by
  by_cases escaped : c = '<' ∨ c = '>' ∨ c = '&'
  · obtain ⟨scanner, mode, stage, prolog, frames, root, insertion, announced⟩ := r
    obtain ⟨rfl, rfl, somewhere⟩ := inside
    obtain ⟨frame, frames, rfl⟩ := List.exists_cons_of_ne_nil somewhere
    rcases escaped with rfl | rfl | rfl <;> rfl
  · rw [escapeInText_of_not escaped, List.map_singleton]
    simp only [not_or] at escaped
    rw [foldlM_cons_some (take_ofChar_content inside run legal escaped.1 escaped.2.2)]
    rfl

/-- A text is added to the text so far. -/
theorem take_escapedText (inside : r.Inside) (run : Run) {cs : List Char}
    (plain : isPlainText cs = true) :
    ((escapedText cs).map Token.ofChar).foldlM take (r.goto (.content run)) =
      some (r.goto (.content (cs.foldl Run.add run))) := by
  induction cs generalizing run with
  | nil => rfl
  | cons c cs ih =>
      simp only [isPlainText, List.all_cons, Bool.and_eq_true] at plain
      rw [escapedText, List.flatMap_cons, List.map_append,
        foldlM_append_some (take_escapeInText inside run plain.1.1)]
      exact ih _ plain.2

/-! ## Names -/

/-- A machine that gathers the characters of one kind gathers all of them. -/
theorem take_gathered {mode : List Char → Mode} {token : Char → Token} {kind : Char → Bool}
    (gathers : ∀ text c, kind c = true →
      (r.goto (mode text)).take (token c) = some (r.goto (mode (c :: text))))
    {cs : List Char} (all : cs.all kind = true) (text : List Char) :
    (cs.map token).foldlM take (r.goto (mode text)) =
      some (r.goto (mode (cs.reverse ++ text))) := by
  induction cs generalizing text with
  | nil => rfl
  | cons c cs ih =>
      obtain ⟨here, rest⟩ := Bool.and_eq_true_iff.mp all
      rw [List.map_cons, foldlM_cons_some (gathers text c here), ih rest, List.reverse_cons,
        List.append_assoc, List.singleton_append]

/-- A token that a start tag goes on with. -/
theorem take_startTag {mode next : TagMode} {token : Token}
    (taken : mode.take r.prolog token = some (.more next)) :
    (r.goto (.startTag mode)).take token = some (r.goto (.startTag next)) := by
  rw [take]
  simp [goto, takeStartTag, taken]

end Reader

/-- The characters of a plain name. -/
theorem exists_of_isPlainName {name : String} (plain : isPlainName name = true) :
    ∃ first rest, name.toList = first :: rest ∧ isNameStart first = true ∧
      (first :: rest).all isNameChar = true ∧ ∀ c ∈ first :: rest, c ≠ ':' := by
  obtain ⟨start, all⟩ := Bool.and_eq_true_iff.mp plain
  obtain ⟨first, head, starts⟩ := (Option.any_eq_true _ _).mp start
  obtain ⟨rest, chars⟩ := List.head?_eq_some_iff.mp head
  rw [chars] at all
  refine ⟨first, rest, chars, starts, ?_, ?_⟩
  · rw [List.all_eq_true] at all ⊢
    exact fun c member => (Bool.and_eq_true_iff.mp (all c member)).1
  · intro c member
    exact bne_iff_ne.mp (Bool.and_eq_true_iff.mp (List.all_eq_true.mp all c member)).2

/-- A plain name is a name without a qualifier. -/
theorem ofChars?_of_isPlainName {name : String} (plain : isPlainName name = true) :
    QName.ofChars? name.toList = some ⟨none, name⟩ := by
  obtain ⟨first, rest, chars, starts, all, no_colon⟩ := exists_of_isPlainName plain
  have no_mark : ∀ c ∈ first :: rest, (c != ':') = true := by
    intro c member
    exact bne_iff_ne.mpr (no_colon c member)
  have whole := List.takeWhile_eq_self_iff.mpr no_mark
  have no_rest := List.dropWhile_eq_nil_iff.mpr no_mark
  have named : String.ofList (first :: rest) = name := by
    rw [← chars, String.ofList_toList]
  have guard : (!isNameStart first || first == ':' || !(first :: rest).all isNameChar) = false := by
    rw [starts, all, beq_false_of_ne (no_colon first List.mem_cons_self)]
    rfl
  rw [chars, QName.ofChars?, guard, no_rest, whole, ← named]
  rfl

/-- The characters of a plain name are characters of names. -/
theorem all_isNameChar_of_isPlainName {name : String} (plain : isPlainName name = true) :
    name.toList.all isNameChar = true := by
  obtain ⟨first, rest, chars, -, all, -⟩ := exists_of_isPlainName plain
  rwa [chars]

/-! ## Start tags -/

/-- The start tag of an element with these attributes, as it has been read. -/
def TagHead.plain (name : String) (attributes : Attributes) : TagHead where
  name := ⟨none, name⟩
  attributes := (attributes.map fun (key, value) => (⟨none, key⟩, value)).reverse

/-- May the start tag end here or go on with a space? -/
structure TagMode.Expects (mode : TagMode) (head : TagHead) : Prop where
  space : mode.take {} (.char ' ') = some (.more (.gap head))
  close : mode.take {} .closeTag = some (.done (head, false))

namespace Reader

variable {r : Reader}

/-- A legal character of a value that has no escape is added to the value. -/
theorem take_ofChar_value (fresh : r.prolog = {}) (head : TagHead) (key : QName)
    (text : List Char) {c : Char} (kept : isKeptValue [c] = true)
    (no_mark : c ≠ '<' ∧ c ≠ '&' ∧ c ≠ '"') (no_end : c ≠ '\n' ∧ c ≠ '\r') :
    (r.goto (.startTag (.value head key (.inside '"' text)))).take (.ofChar c) =
      some (r.goto (.startTag (.value head key (.inside '"' (c :: text))))) := by
  apply take_startTag
  rw [fresh]
  by_cases mark : c = '>' ∨ c = '=' ∨ c = ';' ∨ c = '\''
  · rcases mark with rfl | rfl | rfl | rfl <;> rfl
  · simp only [not_or] at mark
    simp only [isKeptValue, List.all_cons, List.all_nil, Bool.and_eq_true, bne_iff_ne,
      Bool.and_true] at kept
    obtain ⟨legal, no_tab⟩ := kept
    have same : (if isSpace c then ' ' else c) = c := by
      by_cases space : c = ' ' <;> simp [isSpace, space, no_tab, no_end]
    rw [ofChar_of_ne ⟨no_mark.1, no_mark.2.1⟩
      ⟨mark.1, mark.2.1, mark.2.2.1, no_mark.2.2, mark.2.2.2⟩]
    have taken : (Quoted.inside '"' text).take {} (.char c) = _ := Quoted.take_inside_char legal
    rw [same] at taken
    exact TagMode.take_value_more taken

/-- A character of a value in its escape is added to the value. -/
theorem take_escapeInValue (fresh : r.prolog = {}) (head : TagHead) (key : QName)
    (text : List Char) {c : Char} (kept : isKeptValue [c] = true) :
    ((escapeInValue c).map Token.ofChar).foldlM take
        (r.goto (.startTag (.value head key (.inside '"' text)))) =
      some (r.goto (.startTag (.value head key (.inside '"' (c :: text))))) := by
  by_cases escaped : c = '<' ∨ c = '>' ∨ c = '"' ∨ c = '\'' ∨ c = '&'
  · obtain ⟨scanner, mode, stage, prolog, frames, root, insertion, announced⟩ := r
    obtain rfl : prolog = {} := fresh
    rcases escaped with rfl | rfl | rfl | rfl | rfl <;> rfl
  by_cases numbered : c = '\n' ∨ c = '\r'
  · obtain ⟨scanner, mode, stage, prolog, frames, root, insertion, announced⟩ := r
    obtain rfl : prolog = {} := fresh
    rcases numbered with rfl | rfl <;> rfl
  · have no_end := not_or.mp numbered
    rw [escapeInValue_of_not escaped no_end.1 no_end.2, List.map_singleton]
    simp only [not_or] at escaped
    rw [foldlM_cons_some (take_ofChar_value fresh head key text kept
      ⟨escaped.1, escaped.2.2.2.2, escaped.2.2.1⟩ no_end)]
    rfl

/-- A value is added to the value so far. -/
theorem take_escapedValue (fresh : r.prolog = {}) (head : TagHead) (key : QName)
    (text : List Char) {cs : List Char} (kept : isKeptValue cs = true) :
    ((escapedValue cs).map Token.ofChar).foldlM take
        (r.goto (.startTag (.value head key (.inside '"' text)))) =
      some (r.goto (.startTag (.value head key (.inside '"' (cs.reverse ++ text))))) := by
  induction cs generalizing text with
  | nil => rfl
  | cons c cs ih =>
      have split : isKeptValue [c] = true ∧ isKeptValue cs = true := by
        simp only [isKeptValue, List.all_cons, List.all_nil, Bool.and_eq_true,
          Bool.and_true] at kept ⊢
        exact kept
      rw [escapedValue, List.flatMap_cons, List.map_append,
        foldlM_append_some (take_escapeInValue fresh head key text split.1), List.reverse_cons,
        List.append_assoc]
      exact ih _ split.2

end Reader

/-- An attribute as it is written. -/
def writtenAttribute (pair : String × String) : List Char :=
  ' ' :: pair.1.toList ++ ['=', '"'] ++ escapedValue pair.2.toList ++ ['"']

/-- The characters of an attribute. -/
theorem toList_attributePiece (pair : String × String) :
    (attributePiece pair).toList = writtenAttribute pair := by
  simp [attributePiece, writtenAttribute, escapedValue]

/-- A name does not begin with white space. -/
theorem not_isSpace_of_isNameStart {c : Char} (starts : isNameStart c = true) :
    isSpace c = false := by
  rw [Bool.eq_false_iff]
  intro space
  simp only [isSpace, Bool.or_eq_true, beq_iff_eq] at space
  rcases space with ((rfl | rfl) | rfl) | rfl <;> exact absurd starts (by decide)

/-- The head of a tag with one attribute more. -/
def TagHead.addPlain (head : TagHead) (pair : String × String) : TagHead :=
  { head with attributes := (⟨none, pair.1⟩, pair.2) :: head.attributes }

/-- Behind an attribute a start tag may end or go on. -/
theorem TagMode.expects_valued (head : TagHead) : (TagMode.valued head).Expects head :=
  ⟨rfl, rfl⟩

/-- A plain key that is new to the tag is taken as it is. -/
theorem TagHead.named_of_isPlainName {head : TagHead} {key : String}
    (plain : isPlainName key = true)
    (new : head.attributes.any (fun (other, _) => other == ⟨none, key⟩) = false) :
    head.named key.toList.reverse = some ⟨none, key⟩ := by
  rw [TagHead.named, List.reverse_reverse, ofChars?_of_isPlainName plain]
  simp [Option.filter, new]

namespace Reader

variable {r : Reader}

/-- The key of an attribute is gathered. -/
theorem take_key (head : TagHead) {key : String} (plain : isPlainName key = true) :
    (key.toList.map Token.ofChar).foldlM take (r.goto (.startTag (.gap head))) =
      some (r.goto (.startTag (.attribute head key.toList.reverse))) := by
  obtain ⟨first, rest, chars, starts, all, -⟩ := exists_of_isPlainName plain
  obtain ⟨first_name, rest_names⟩ := Bool.and_eq_true_iff.mp all
  have initial : (r.goto (.startTag (.gap head))).take (.ofChar first) =
      some (r.goto (.startTag (.attribute head [first]))) := by
    apply take_startTag
    rw [ofChar_of_isNameChar first_name]
    exact TagMode.take_gap_of_isNameStart (not_isSpace_of_isNameStart starts) starts
  have gathers : ∀ text c, isNameChar c = true →
      (r.goto (.startTag (.attribute head text))).take (.ofChar c) =
        some (r.goto (.startTag (.attribute head (c :: text)))) := by
    intro text c name
    apply take_startTag
    rw [ofChar_of_isNameChar name]
    exact TagMode.take_attribute_of_isNameChar name
  rw [chars, List.map_cons, foldlM_cons_some initial, take_gathered gathers rest_names,
    List.reverse_cons]

/-- The mark behind a value adds the attribute to the tag. -/
theorem take_valueEnd (head : TagHead) {key : String} (kept : key ≠ declaringName)
    (value : String) :
    (r.goto (.startTag (.value head ⟨none, key⟩ (.inside '"' value.toList.reverse)))).take
        (.ofChar '"') =
      some (r.goto (.startTag (.valued (head.addPlain (key, value))))) := by
  apply take_startTag
  have differ : (⟨none, key⟩ : QName) ≠ ⟨none, declaringName⟩ := by
    intro same
    exact kept (congrArg QName.localName same)
  have ended : (Quoted.inside '"' value.toList.reverse).take r.prolog (.ofChar '"') =
      some (.done value.toList) :=
    Quoted.take_inside_quote.trans (by rw [List.reverse_reverse])
  rw [TagMode.take_value_done ended]
  simp [TagHead.add, differ, TagHead.addPlain]

/-- An attribute is added to the tag. -/
theorem take_writtenAttribute (fresh : r.prolog = {}) {mode : TagMode} {head : TagHead}
    (expects : mode.Expects head) {key value : String} (plain : isPlainName key = true)
    (kept : key ≠ declaringName) (kept_value : isKeptValue value.toList = true)
    (new : head.attributes.any (fun (other, _) => other == ⟨none, key⟩) = false) :
    ((writtenAttribute (key, value)).map Token.ofChar).foldlM take (r.goto (.startTag mode)) =
      some (r.goto (.startTag (.valued (head.addPlain (key, value))))) := by
  have space : (r.goto (.startTag mode)).take (.ofChar ' ') =
      some (r.goto (.startTag (.gap head))) := by
    apply take_startTag
    rw [fresh]
    exact expects.space
  have equals : (r.goto (.startTag (.attribute head key.toList.reverse))).take (.ofChar '=') =
      some (r.goto (.startTag (.value head ⟨none, key⟩ .awaiting))) := by
    apply take_startTag
    exact TagMode.take_attribute_equals (TagHead.named_of_isPlainName plain new)
  have opens : (r.goto (.startTag (.value head ⟨none, key⟩ .awaiting))).take (.ofChar '"') =
      some (r.goto (.startTag (.value head ⟨none, key⟩ (.inside '"' [])))) :=
    take_startTag rfl
  have written : (writtenAttribute (key, value)).map Token.ofChar =
      .ofChar ' ' :: (key.toList.map .ofChar ++ (.ofChar '=' :: .ofChar '"' ::
        ((escapedValue value.toList).map .ofChar ++ [.ofChar '"']))) := by
    simp [writtenAttribute]
  rw [written, foldlM_cons_some space, foldlM_append_some (take_key head plain),
    foldlM_cons_some equals, foldlM_cons_some opens,
    foldlM_append_some (take_escapedValue fresh _ _ _ kept_value), List.append_nil,
    foldlM_cons_some (take_valueEnd head kept value)]
  rfl

/-- All attributes are added to the tag. -/
theorem take_writtenAttributes (fresh : r.prolog = {}) {name : String}
    {front attributes : Attributes} {mode : TagMode} (expects : mode.Expects (.plain name front))
    (kept : areKeptAttributes (front ++ attributes) = true) :
    ∃ next : TagMode, next.Expects (.plain name (front ++ attributes)) ∧
      ((attributes.flatMap writtenAttribute).map Token.ofChar).foldlM take
        (r.goto (.startTag mode)) = some (r.goto (.startTag next)) := by
  induction attributes generalizing front mode with
  | nil => exact ⟨mode, by rwa [List.append_nil], rfl⟩
  | cons pair attributes ih =>
      obtain ⟨key, value⟩ := pair
      have regroup : front ++ (key, value) :: attributes =
          (front ++ [(key, value)]) ++ attributes := by simp
      have added : (TagHead.plain name front).addPlain (key, value) =
          TagHead.plain name (front ++ [(key, value)]) := by
        simp [TagHead.addPlain, TagHead.plain]
      obtain ⟨distinct, all⟩ := Bool.and_eq_true_iff.mp kept
      have pair_kept := List.all_eq_true.mp all (key, value) (by simp)
      simp only [Bool.and_eq_true, bne_iff_ne] at pair_kept
      have new : (TagHead.plain name front).attributes.any
          (fun (other, _) => other == ⟨none, key⟩) = false := by
        simp only [decide_eq_true_eq, List.map_append, List.map_cons, List.nodup_append,
          List.mem_map, List.mem_cons] at distinct
        simp only [TagHead.plain, List.any_reverse, List.any_map, List.any_eq_false]
        intro other member same
        have same_key : other.1 = key := by simpa using same
        exact distinct.2.2 other.1 ⟨other, member, rfl⟩ key (.inl rfl) same_key
      have here := take_writtenAttribute (r := r) fresh expects pair_kept.1.1 pair_kept.1.2
        pair_kept.2 new
      have valued := TagMode.expects_valued ((TagHead.plain name front).addPlain (key, value))
      rw [added] at here valued
      rw [regroup] at kept ⊢
      obtain ⟨next, next_expects, taken⟩ := ih valued kept
      refine ⟨next, next_expects, ?_⟩
      rw [List.flatMap_cons, List.map_append, foldlM_append_some here, taken]

end Reader

end SymbolFont.Markup
