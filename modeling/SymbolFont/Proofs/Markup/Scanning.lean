/-
# Scanning written markup

What a document is written of can be scanned piece by piece.  The scanner may hold back a
few characters at the end of a piece, but these come out with the next one as if they had
not been held back.  So each kind of piece has tokens of its own, whatever stands before
it, and the tokens of a document are those of its pieces.

Pieces that end in a character which is never held back are singled out: behind them a `>`
ends a tag.
-/

import Mathlib.Tactic.Common
import SymbolFont.Markup.Scanner

namespace SymbolFont.Markup

namespace Scanner

/-- Scan characters, with all the tokens that they bring. -/
def scan (s : Scanner) : List Char → Option Scanned
  | [] => some (s, [])
  | c :: cs => (s.step c).bind fun next => (next.1.scan cs).map (Scanned.after next.2)

/-- The tokens of two pieces follow one another. -/
theorem scan_append {s middle last : Scanner} {first second : List Token} {cs ds : List Char}
    (front : s.scan cs = some (middle, first)) (back : middle.scan ds = some (last, second)) :
    s.scan (cs ++ ds) = some (last, first ++ second) := by
  induction cs generalizing s first with
  | nil =>
      obtain ⟨rfl, rfl⟩ : s = middle ∧ [] = first := by simpa [scan] using front
      exact back
  | cons c cs ih =>
      simp only [scan, Option.bind_eq_some_iff, Option.map_eq_some_iff] at front
      obtain ⟨⟨next, tokens⟩, stepped, ⟨end_, others⟩, rest, joined⟩ := front
      obtain ⟨rfl, rfl⟩ : end_ = middle ∧ tokens ++ others = first := by
        simpa [Scanned.after] using joined
      rw [List.cons_append, scan, stepped, Option.bind_some, ih rest]
      simp [Scanned.after]

end Scanner

open Scanner (scan)

/-- The places of content, each with the tokens of the characters held back there. -/
inductive Held : Place → List Token → Prop
  | none : Held .content []
  | slash : Held .slash [.char '/']
  | bracket : Held (.bracket false) [.char ']']
  | brackets : Held (.bracket true) [.char ']', .char ']']

/-- The scanner takes the characters in content for the tokens, up to what is held back. -/
def Scans (cs : List Char) (tokens : List Token) : Prop :=
  ∀ ⦃place pending⦄, Held place pending →
    ∃ place' pending' out, Held place' pending' ∧
      scan { place } cs = some ({ place := place' }, out) ∧ out ++ pending' = pending ++ tokens

/-- The same, and nothing is held back behind the characters. -/
def Lands (cs : List Char) (tokens : List Token) : Prop :=
  ∀ ⦃place pending⦄, Held place pending → scan { place } cs = some ({}, pending ++ tokens)

namespace Scans

variable {cs ds : List Char} {first second : List Token}

/-- No characters bring no tokens. -/
theorem nil : Scans [] [] := by
  intro place pending held
  exact ⟨place, pending, [], held, rfl, by simp⟩

/-- Pieces follow one another. -/
theorem append (front : Scans cs first) (back : Scans ds second) :
    Scans (cs ++ ds) (first ++ second) := by
  intro place pending held
  obtain ⟨middle, kept, out, middle_held, scanned, joined⟩ := front held
  obtain ⟨last, left, out', last_held, scanned', joined'⟩ := back middle_held
  refine ⟨last, left, out ++ out', last_held, Scanner.scan_append scanned scanned', ?_⟩
  rw [List.append_assoc, joined', ← List.append_assoc, joined, List.append_assoc]

/-- A piece behind which nothing is held back ends with nothing held back. -/
theorem lands (front : Scans cs first) (back : Lands ds second) :
    Lands (cs ++ ds) (first ++ second) := by
  intro place pending held
  obtain ⟨middle, kept, out, middle_held, scanned, joined⟩ := front held
  rw [Scanner.scan_append scanned (back middle_held), ← List.append_assoc, joined,
    List.append_assoc]

/-- A character that neither begins nor ends markup stands for itself. -/
theorem char {c : Char} (no_open : c ≠ '<') (no_close : c ≠ '>') : Scans [c] [.ofChar c] := by
  intro place pending held
  by_cases is_slash : c = '/'
  · subst is_slash
    exact ⟨.slash, _, pending, .slash, by cases held <;> rfl, rfl⟩
  by_cases is_bracket : c = ']'
  · subst is_bracket
    cases held with
    | none => exact ⟨_, _, [], .bracket, rfl, rfl⟩
    | slash => exact ⟨_, _, _, .bracket, rfl, rfl⟩
    | bracket => exact ⟨_, _, [], .brackets, rfl, rfl⟩
    | brackets => exact ⟨_, _, _, .brackets, rfl, rfl⟩
  · refine ⟨.content, [], pending ++ [.ofChar c], .none, ?_, by simp⟩
    cases held <;>
      simp [scan, Scanner.step, Scanner.content, Scanner.closing, Scanner.moveTo, Scanned.after,
        no_open, no_close, is_slash, is_bracket]

/-- Characters that neither begin nor end markup stand for themselves. -/
theorem chars {cs : List Char} (plain : ∀ c ∈ cs, c ≠ '<' ∧ c ≠ '>') :
    Scans cs (cs.map .ofChar) := by
  induction cs with
  | nil => exact .nil
  | cons c cs ih =>
      obtain ⟨here, rest⟩ := List.forall_mem_cons.mp plain
      exact append (char here.1 here.2) (ih rest)

end Scans

/-- Is the character never held back, and no beginning or end of markup? -/
def isSolid (c : Char) : Bool := c != '<' && c != '>' && c != '/' && c != ']'

namespace Lands

variable {cs ds : List Char} {first second : List Token}

/-- Nothing held back is a way of holding back. -/
theorem scans (lands : Lands cs first) : Scans cs first := by
  intro place pending held
  exact ⟨.content, [], pending ++ first, .none, lands held, by simp⟩

/-- Pieces follow one another. -/
theorem append (front : Lands cs first) (back : Lands ds second) :
    Lands (cs ++ ds) (first ++ second) :=
  front.scans.lands back

/-- A solid character stands for itself. -/
theorem char {c : Char} (solid : isSolid c = true) : Lands [c] [.ofChar c] := by
  intro place pending held
  simp only [isSolid, Bool.and_eq_true, bne_iff_ne] at solid
  cases held <;>
    simp [scan, Scanner.step, Scanner.content, Scanner.closing, Scanner.moveTo, Scanned.after,
      solid]

/-- Behind a piece that leaves nothing held back, a `>` ends a tag. -/
theorem closeTag (front : Lands cs first) : Lands (cs ++ ['>']) (first ++ [.closeTag]) := by
  intro place pending held
  have close : scan {} ['>'] = some ({}, [.closeTag]) := rfl
  rw [Scanner.scan_append (front held) close, List.append_assoc]

/-- A `<` brings out what is held back. -/
theorem ofMarkup (inside : scan { place := .markup } cs = some ({}, first)) :
    Lands ('<' :: cs) first := by
  intro place pending held
  have entered : scan { place } ['<'] = some ({ place := .markup }, pending) := by
    cases held <;> rfl
  exact Scanner.scan_append entered inside

/-- Behind `<`, the first character of a name begins a start tag. -/
theorem openTag {c : Char} (name : isNameChar c = true) : Lands ['<', c] [.openTag, .char c] := by
  have no_mark : c ≠ '?' ∧ c ≠ '/' ∧ c ≠ '!' := by
    refine ⟨?_, ?_, ?_⟩ <;> rintro rfl <;> revert name <;> decide
  apply ofMarkup
  simp [scan, Scanner.step, Scanner.markup, Scanner.moveTo, Scanner.around, Scanned.after, no_mark,
    name]

/-- The beginning of an end tag. -/
theorem openEndTag : Lands ['<', '/'] [.openEndTag] := ofMarkup rfl

/-- The end of a tag without content. -/
theorem closeEmptyTag : Lands ['/', '>'] [.closeEmptyTag] := by
  intro place pending held
  cases held <;> rfl

/-- Characters without two dashes in a row, up to the two that end a comment. -/
theorem scan_comment : ∀ {cs : List Char}, ¬['-', '-'] <:+: cs ++ ['-'] →
    scan { place := .comment } (cs ++ ['-', '-', '>']) =
      some ({}, cs.map .char ++ [.closeComment])
  | [], _ => rfl
  | c :: cs, separate => by
      have rest : ¬['-', '-'] <:+: cs ++ ['-'] := fun pair => separate (List.infix_cons pair)
      by_cases dash : c = '-'
      · subst dash
        -- a dash waits for the character behind it, so the two are read together
        match cs with
        | [] => exact absurd (List.infix_refl _) separate
        | d :: cs =>
            have differ : d ≠ '-' := by
              rintro rfl
              exact separate ⟨[], cs ++ ['-'], rfl⟩
            have both : scan { place := .comment } ['-', d] =
                some ({ place := .comment }, [.char '-', .char d]) := by
              simp [scan, Scanner.step, Scanner.dash, Scanner.moveTo, Scanned.after, differ]
            have others : ¬['-', '-'] <:+: cs ++ ['-'] := fun pair => rest (List.infix_cons pair)
            have joined := Scanner.scan_append both (scan_comment others)
            exact joined
      · have here : scan { place := .comment } [c] = some ({ place := .comment }, [.char c]) := by
          simp [scan, Scanner.step, Scanner.moveTo, Scanned.after, dash]
        have joined := Scanner.scan_append here (scan_comment rest)
        exact joined

/-- A comment without two dashes in a row, also together with those that end it. -/
theorem comment {cs : List Char} (separate : ¬['-', '-'] <:+: cs ++ ['-']) :
    Lands ("<!--".toList ++ cs ++ "-->".toList)
      (.openComment :: cs.map .char ++ [.closeComment]) := by
  have opened : scan { place := .markup } "!--".toList =
      some ({ place := .comment }, [.openComment]) := rfl
  have inside := Scanner.scan_append opened (scan_comment separate)
  exact ofMarkup inside

end Lands

end SymbolFont.Markup
