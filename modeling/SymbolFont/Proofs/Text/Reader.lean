/-
# Reading what has been written

Texts made of literals, numbers and free text can be read back piece by piece, as long as each
piece tells where it ends: a literal by its length, any other by the literal behind it, which
begins with a character that the piece does not hold.  A repetition ends where the literal that
leads each item is missing.

The readers here are followed by their laws: what was written is read, and what stands behind
it is left.
-/

import Mathlib.Data.List.Basic
import Mathlib.Tactic.Common
import SymbolFont.Proofs.Text.Integer

namespace SymbolFont.Text

/-- Two texts are at odds if neither begins with the other. -/
def AtOdds (a b : String) : Prop := ¬ a.toList <+: b.toList ∧ ¬ b.toList <+: a.toList

instance (a b : String) : Decidable (AtOdds a b) := inferInstanceAs (Decidable (_ ∧ _))

/-- A text does not begin with what is at odds with its front. -/
theorem AtOdds.not_begins {a b : String} (odds : AtOdds a b) {text : List Char}
    (front : b.toList <+: text) : ¬ a.toList <+: text := by
  intro begins
  rcases List.prefix_or_prefix_of_prefix begins front with inside | inside
  · exact odds.1 inside
  · exact odds.2 inside

/-- Has the text no quotation mark? -/
def IsUnquoted (text : String) : Prop := '"' ∉ text.toList

instance (text : String) : Decidable (IsUnquoted text) := inferInstanceAs (Decidable (¬ _))

/-- A reader takes a value from the front of a text, if there is one. -/
abbrev Reader (α : Type) := StateT (List Char) Option α

namespace Reader

variable {α β : Type}

/-! ## Literals -/

/-- Take a text that is known. -/
def literal (text : String) : Reader Unit := fun cs =>
  (cs.dropPrefix? text.toList).map fun rest => ((), rest)

@[simp]
theorem run_literal (text : String) (rest : List Char) :
    (literal text).run (text.toList ++ rest) = some ((), rest) := by
  have found : (text.toList ++ rest).dropPrefix? text.toList = some rest :=
    List.dropPrefix?_eq_some_iff.mpr ⟨text.toList, rfl, by simp⟩
  show ((text.toList ++ rest).dropPrefix? text.toList).map _ = _
  rw [found]
  rfl

theorem run_literal_eq_some_iff {text : String} {cs rest : List Char} :
    (literal text).run cs = some ((), rest) ↔ cs = text.toList ++ rest := by
  constructor
  · intro taken
    obtain ⟨behind, found, same⟩ := Option.map_eq_some_iff.mp taken
    obtain ⟨front, split, equal⟩ := List.dropPrefix?_eq_some_iff.mp found
    rw [split, eq_of_beq equal, (Prod.mk.inj same).2]
  · rintro rfl
    exact run_literal text rest

/-- Where the literal does not stand, it is not taken. -/
theorem run_literal_eq_none {text : String} {cs : List Char} (missing : ¬ text.toList <+: cs) :
    (literal text).run cs = none := by
  cases taken : (literal text).run cs with
  | none => rfl
  | some result =>
      obtain ⟨⟨⟩, rest⟩ := result
      exact absurd ⟨rest, (run_literal_eq_some_iff.mp taken).symm⟩ missing

/-- Take the first of these literals that stands here, for the value that belongs to it. -/
def oneOf : List (String × α) → Reader α
  | [] => failure
  | (text, value) :: choices => (do literal text; return value) <|> oneOf choices

theorem run_oneOf {choices : List (String × α)} {text : String} {value : α}
    (mem : (text, value) ∈ choices)
    (apart : choices.Pairwise fun a b => AtOdds a.1 b.1) (rest : List Char) :
    (oneOf choices).run (text.toList ++ rest) = some (value, rest) := by
  induction choices with
  | nil => cases mem
  | cons choice choices ih =>
      obtain ⟨first, later⟩ := List.pairwise_cons.mp apart
      rw [oneOf, StateT.run_orElse, StateT.run_bind]
      rcases List.mem_cons.mp mem with rfl | mem
      · rw [run_literal]
        rfl
      · rw [run_literal_eq_none ((first _ mem).not_begins (List.prefix_append _ _))]
        exact ih mem later

/-! ## Pieces with an end -/

/-- Take the characters of a kind and what they stand for, and then the literal behind them. -/
def upTo (kind : Char → Bool) (value? : List Char → Option α) (close : String) : Reader α :=
  fun cs => do
    let value ← value? (cs.takeWhile kind)
    let (_, rest) ← (literal close).run (cs.dropWhile kind)
    return (value, rest)

/-- Does the literal begin with a character that is not of the kind? -/
def Closes (kind : Char → Bool) (close : String) : Prop := close.toList.head?.all kind = false

instance (kind : Char → Bool) (close : String) : Decidable (Closes kind close) :=
  inferInstanceAs (Decidable (_ = false))

theorem run_upTo {kind : Char → Bool} {value? : List Char → Option α} {close : String}
    {text : List Char} {value : α} (inside : ∀ c ∈ text, kind c = true)
    (closes : Closes kind close) (read : value? text = some value) (rest : List Char) :
    (upTo kind value? close).run (text ++ (close.toList ++ rest)) = some (value, rest) := by
  obtain ⟨c, cs, split, outside⟩ : ∃ c cs, close.toList = c :: cs ∧ kind c = false := by
    unfold Closes at closes
    cases split : close.toList with
    | nil => rw [split] at closes; cases closes
    | cons c cs => exact ⟨c, cs, rfl, by simpa [split] using closes⟩
  have behind : ¬ kind c = true := by simp [outside]
  have taken : (text ++ (close.toList ++ rest)).takeWhile kind = text := by
    rw [List.takeWhile_append_of_pos inside, split, List.cons_append,
      List.takeWhile_cons_of_neg behind, List.append_nil]
  have left : (text ++ (close.toList ++ rest)).dropWhile kind = close.toList ++ rest := by
    rw [List.dropWhile_append_of_pos inside, split, List.cons_append,
      List.dropWhile_cons_of_neg behind]
  show ((value? ((text ++ (close.toList ++ rest)).takeWhile kind)).bind fun value =>
    ((literal close).run ((text ++ (close.toList ++ rest)).dropWhile kind)).bind fun p =>
      some (value, p.2)) = _
  rw [taken, left, read, run_literal]
  rfl

/-- Take a text up to a quotation mark. -/
def quoted : String → Reader String := upTo (· != '"') fun cs => some (String.ofList cs)

theorem run_quoted {text close : String} (plain : IsUnquoted text)
    (closes : Closes (· != '"') close) (rest : List Char) :
    (quoted close).run (text.toList ++ (close.toList ++ rest)) = some (text, rest) := by
  have inside : ∀ c ∈ text.toList, (c != '"') = true := by
    intro c mem
    rw [bne_iff_ne]
    exact fun same => plain (same ▸ mem)
  exact run_upTo inside closes (by rw [String.ofList_toList]) rest

/-! ## Numbers -/

/-- Take a natural. -/
def natural : String → Reader Nat := upTo Char.isDigit decimalValue?

theorem run_natural {close : String} (closes : Closes Char.isDigit close) (n : Nat)
    (rest : List Char) :
    (natural close).run ((toString n).toList ++ (close.toList ++ rest)) = some (n, rest) :=
  run_upTo (fun _ => isDigit_of_mem_toString) closes (decimalValue?_toString n) rest

/-- The characters of integers. -/
def isIntegral (c : Char) : Bool := c.isDigit || c == '-'

/-- Take an integer. -/
def integer : String → Reader Int := upTo isIntegral integer?

theorem run_integer {close : String} (closes : Closes isIntegral close) (n : Int)
    (rest : List Char) :
    (integer close).run ((toString n).toList ++ (close.toList ++ rest)) = some (n, rest) := by
  have digits : ∀ {m : Nat} {c : Char}, c ∈ (toString m).toList → isIntegral c = true := by
    intro m c mem
    rw [isIntegral, isDigit_of_mem_toString mem, Bool.true_or]
  have inside : ∀ c ∈ (toString n).toList, isIntegral c = true := by
    rcases toList_toString_int n with ⟨m, -, text⟩ | ⟨m, -, text⟩
    · rw [text]
      exact fun c => digits
    · rw [text, List.forall_mem_cons]
      exact ⟨by decide, fun c => digits⟩
  exact run_upTo inside closes (integer?_toString n) rest

/-! ## Repetitions -/

/-- Take up to so many items, each with the literal in front. -/
def upToItems (lead : String) (item : Reader α) : Nat → Reader (List α)
  | 0 => pure []
  | n + 1 => fun cs =>
      match (literal lead).run cs with
      | none => some ([], cs)
      | some (_, behind) =>
          (do return (← item) :: (← upToItems lead item n) : Reader (List α)).run behind

/-- Take all items that have the literal in front.  None of them is without characters, so there
are not more than those. -/
def items (lead : String) (item : Reader α) : Reader (List α) := fun cs =>
  (upToItems lead item cs.length).run cs

/-- The items of a list are read back, each by what is read of it, if the literal does not stand
behind the last. -/
theorem run_upToItems {lead : String} {item : Reader β} {write : α → List Char} {view : α → β}
    {list : List α} {rest : List Char} (stops : ¬ lead.toList <+: rest)
    (each : ∀ a ∈ list, ∀ behind, (do literal lead; item : Reader β).run (write a ++ behind) =
      some (view a, behind))
    {n : Nat} (enough : list.length ≤ n) :
    (upToItems lead item n).run (list.flatMap write ++ rest) = some (list.map view, rest) := by
  induction list generalizing n with
  | nil =>
      cases n with
      | zero => rfl
      | succ n =>
          show (match (literal lead).run rest with | none => _ | some (_, behind) => _) = _
          rw [run_literal_eq_none stops]
          rfl
  | cons a list ih =>
      obtain ⟨n, rfl⟩ : ∃ m, n = m + 1 := Nat.exists_eq_add_one.mpr (by simp at enough; omega)
      have first := each a List.mem_cons_self (list.flatMap write ++ rest)
      have later := ih (fun b mem => each b (List.mem_cons_of_mem _ mem))
        (Nat.le_of_succ_le_succ enough)
      rw [List.flatMap_cons, List.append_assoc]
      show (match (literal lead).run (write a ++ (list.flatMap write ++ rest)) with
        | none => _ | some (_, behind) => _) = _
      rw [StateT.run_bind] at first
      cases led : (literal lead).run (write a ++ (list.flatMap write ++ rest)) with
      | none => rw [led] at first; cases first
      | some result =>
          rw [led] at first
          have taken : item.run result.2 = some (view a, list.flatMap write ++ rest) := first
          simp [taken, later]

theorem length_le_length_flatMap {write : α → List Char} {list : List α}
    (nonempty : ∀ a ∈ list, 1 ≤ (write a).length) : list.length ≤ (list.flatMap write).length := by
  induction list with
  | nil => exact Nat.zero_le _
  | cons a list ih =>
      have first := nonempty a List.mem_cons_self
      have later := ih fun b mem => nonempty b (List.mem_cons_of_mem _ mem)
      rw [List.flatMap_cons, List.length_append, List.length_cons]
      omega

theorem run_items {lead : String} {item : Reader β} {write : α → List Char} {view : α → β}
    {list : List α} {rest : List Char} (leads : lead.toList ≠ []) (stops : ¬ lead.toList <+: rest)
    (each : ∀ a ∈ list, ∀ behind, (do literal lead; item : Reader β).run (write a ++ behind) =
      some (view a, behind)) :
    (items lead item).run (list.flatMap write ++ rest) = some (list.map view, rest) := by
  have nonempty : ∀ a ∈ list, 1 ≤ (write a).length := by
    intro a mem
    have read := each a mem []
    rw [StateT.run_bind] at read
    cases led : (literal lead).run (write a ++ []) with
    | none => rw [led] at read; cases read
    | some result =>
        have split := run_literal_eq_some_iff.mp led
        rw [List.append_nil] at split
        rw [split, List.length_append]
        have := List.length_pos_iff.mpr leads
        omega
  have enough : list.length ≤ (list.flatMap write ++ rest).length := by
    rw [List.length_append]
    have := length_le_length_flatMap nonempty
    omega
  exact run_upToItems stops each enough

end Reader

end SymbolFont.Text
