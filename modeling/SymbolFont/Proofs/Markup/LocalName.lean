/-
# Names in start tags

The local part of a qualified name is made of characters of names and has no colon, though it
need not begin like a name.  A reader of a start tag holds such names only, and passes them on.
-/

import Mathlib.Data.List.TakeWhile
import Mathlib.Tactic.Common
import SymbolFont.Proofs.Markup.Taking

namespace SymbolFont.Markup

/-- Are all characters those of names, and none a colon? -/
def isLocalName (name : String) : Bool := name.toList.all fun c => isNameChar c && c != ':'

/-- The local part of a name is a local name. -/
theorem isLocalName_of_ofChars? {cs : List Char} {name : QName}
    (read : QName.ofChars? cs = some name) : isLocalName name.localName = true := by
  unfold QName.ofChars? at read
  split at read
  · cases read
  rename_i first rest
  rw [Option.ite_none_left_eq_some] at read
  obtain ⟨legal, read⟩ := read
  generalize first :: rest = cs at legal read
  have all : ∀ c ∈ cs, isNameChar c = true := by
    have unrefused := (Bool.or_eq_false_iff.mp (Bool.not_eq_true _ ▸ legal)).2
    simpa using unrefused
  have kept : ∀ part : List Char, part ⊆ cs → ':' ∉ part →
      isLocalName (String.ofList part) = true := by
    intro part inside no_colon
    rw [isLocalName, String.toList_ofList, List.all_eq_true]
    intro c mem
    exact Bool.and_eq_true_iff.mpr ⟨all c (inside mem), bne_iff_ne.mpr fun same =>
      no_colon (same ▸ mem)⟩
  dsimp only at read
  split at read
  · cases read
    refine kept _ (List.takeWhile_subset _) fun mem => ?_
    simpa using List.mem_takeWhile_imp mem
  · rename_i mark tail behind
    rw [Option.ite_none_left_eq_some] at read
    obtain ⟨single, read⟩ := read
    cases read
    have inside : tail ⊆ cs := fun c mem =>
      List.dropWhile_subset _ (behind ▸ List.mem_cons_of_mem mark mem)
    exact kept tail inside (by simpa using (not_or.mp (mt Bool.or_eq_true_iff.mpr single)).2)

/-- Are the local parts of all the names local names? -/
def AreLocal (names : List QName) : Prop := ∀ name ∈ names, isLocalName name.localName = true

/-- The names in a start tag as far as it has been read. -/
def TagHead.names (head : TagHead) : List QName := head.name :: head.attributes.map Prod.fst

/-- The names that the reader of a start tag holds. -/
def TagMode.names : TagMode → List QName
  | .name _ => []
  | .gap head | .attribute head _ | .valued head => head.names
  | .equals head key | .value head key _ => key :: head.names

/-- The names in what a token of a start tag leads to. -/
def startTagNames : Progress TagMode StartTag → List QName
  | .more mode => mode.names
  | .done (head, _) => head.names

namespace TagHead

variable {head : TagHead}

theorem areLocal_of_close {token : Token} {progress : Progress TagMode StartTag}
    (sound : AreLocal head.names) (closed : head.close token = some progress) :
    AreLocal (startTagNames progress) := by
  cases token <;> cases closed <;> exact sound

theorem areLocal_of_ofName? {text : List Char} (named : ofName? text = some head) :
    AreLocal head.names := by
  obtain ⟨name, filtered, rfl⟩ := Option.map_eq_some_iff.mp named
  obtain ⟨read, -⟩ := Option.filter_eq_some_iff.mp filtered
  exact List.forall_mem_singleton.mpr (isLocalName_of_ofChars? read)

theorem areLocal_of_named {text : List Char} {key : QName} (sound : AreLocal head.names)
    (named : head.named text = some key) : AreLocal (key :: head.names) := by
  obtain ⟨read, -⟩ := Option.filter_eq_some_iff.mp named
  exact List.forall_mem_cons.mpr ⟨isLocalName_of_ofChars? read, sound⟩

theorem areLocal_of_add {next : TagHead} {key : QName} {value : String}
    (sound : AreLocal (key :: head.names)) (added : head.add key value = some next) :
    AreLocal next.names := by
  obtain ⟨key_local, head_local⟩ := List.forall_mem_cons.mp sound
  unfold add at added
  split at added
  · dsimp only at added
    rw [Option.ite_none_left_eq_some] at added
    cases added.2
    exact head_local
  · split at added
    · rw [Option.ite_none_left_eq_some] at added
      cases added.2
      exact head_local
    · cases added
      obtain ⟨name_local, attributes_local⟩ := List.forall_mem_cons.mp head_local
      exact List.forall_mem_cons.mpr
        ⟨name_local, List.forall_mem_cons.mpr ⟨key_local, attributes_local⟩⟩

end TagHead

/-- A token keeps the names of a start tag local. -/
theorem TagMode.areLocal_of_take {p : Prolog} {mode : TagMode} {token : Token}
    {progress : Progress TagMode StartTag} (sound : AreLocal mode.names)
    (taken : mode.take p token = some progress) : AreLocal (startTagNames progress) := by
  cases mode with
  | name text =>
      cases token with
      | char c =>
          rw [take_name_char] at taken
          split at taken
          · cases taken
            exact sound
          · rw [Option.ite_none_right_eq_some] at taken
            obtain ⟨head, named, rfl⟩ := Option.map_eq_some_iff.mp taken.2
            exact TagHead.areLocal_of_ofName? named
      | _ =>
          obtain ⟨head, named, closed⟩ := Option.bind_eq_some_iff.mp taken
          exact TagHead.areLocal_of_close (TagHead.areLocal_of_ofName? named) closed
  | gap head =>
      cases token with
      | char c =>
          rw [take_gap_char] at taken
          split at taken
          · cases taken
            exact sound
          · rw [Option.ite_none_right_eq_some] at taken
            cases taken.2
            exact sound
      | _ =>
          rw [take_gap_mark (by simp)] at taken
          exact TagHead.areLocal_of_close sound taken
  | «attribute» head text =>
      cases token with
      | char c =>
          rw [take_attribute_char] at taken
          split at taken
          · cases taken
            exact sound
          · rw [Option.ite_none_right_eq_some] at taken
            obtain ⟨key, named, rfl⟩ := Option.map_eq_some_iff.mp taken.2
            exact TagHead.areLocal_of_named sound named
      | equals =>
          obtain ⟨key, named, rfl⟩ := Option.map_eq_some_iff.mp taken
          exact TagHead.areLocal_of_named sound named
      | _ => cases taken
  | equals head key =>
      cases token with
      | char c =>
          rw [take_equals_char] at taken
          rw [Option.ite_none_right_eq_some] at taken
          cases taken.2
          exact sound
      | equals =>
          cases taken
          exact sound
      | _ => cases taken
  | value head key quoted =>
      rw [take_value] at taken
      split at taken
      · cases taken
      · cases taken
        exact sound
      · obtain ⟨next, added, rfl⟩ := Option.map_eq_some_iff.mp taken
        exact TagHead.areLocal_of_add sound added
  | valued head =>
      cases token with
      | char c =>
          rw [take_valued_char] at taken
          rw [Option.ite_none_right_eq_some] at taken
          cases taken.2
          exact sound
      | _ =>
          rw [take_valued_mark (by simp)] at taken
          exact TagHead.areLocal_of_close sound taken

end SymbolFont.Markup
