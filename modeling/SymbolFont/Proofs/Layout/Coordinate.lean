/-
# Coordinates in names

A rule reads its offset from the names of two glyphs.  A name that it takes is two bytes, at the
end of which a character ends, with a decimal integer behind them that is near enough to the middle
of the grid; the first name that is none of these is the error.

What the two bytes are is not looked at.  Names that begin with the marker are taken exactly if they
are the marker with such an integer, but others are taken as well.
-/

import Mathlib.Tactic.Common
import SymbolFont.Glyph.Class
import SymbolFont.Layout.Rule
import SymbolFont.Proofs.Text.Integer

namespace SymbolFont

/-- Is the name the mark with a decimal integer of this value behind it? -/
def IsNumbered (mark name : String) (n : Int) : Prop :=
  ∃ digits : String, name = mark ++ digits ∧ Text.IsDecimal digits.toList n

/-- Is the name some mark of two bytes with an integer behind it, which is not below the least one
that has an offset and fits into 32 bits? -/
def IsCoordinate (least : Int) (name : String) (n : Int) : Prop :=
  (∃ mark : String, mark.utf8ByteSize = 2 ∧ IsNumbered mark name n) ∧ least ≤ n ∧ n ≤ 2147483647

/-- The least coordinate whose distance from the middle to the right fits into 32 bits. -/
def leastRight : Int := -2147482898

/-- The least coordinate whose distance from the middle upwards fits into 32 bits. -/
def leastUp : Int := -2147482897

/-! ## The mark -/

theorem utf8ByteSize_ofList_cons (c : Char) (cs : List Char) :
    (String.ofList (c :: cs)).utf8ByteSize = c.utf8Size + (String.ofList cs).utf8ByteSize := by
  rw [String.ofList_cons, String.utf8ByteSize_append, String.utf8ByteSize_singleton]

/-- Two bytes are one character or two. -/
theorem utf8ByteSize_ofList_eq_two_iff {cs : List Char} :
    (String.ofList cs).utf8ByteSize = 2 ↔
      (∃ a, cs = [a] ∧ a.utf8Size = 2) ∨ ∃ a b, cs = [a, b] ∧ a.utf8Size = 1 ∧ b.utf8Size = 1 := by
  have none : (String.ofList []).utf8ByteSize = 0 := rfl
  constructor
  · intro size
    match cs with
    | [] => cases size
    | [a] =>
        rw [utf8ByteSize_ofList_cons, none] at size
        exact .inl ⟨a, rfl, size⟩
    | [a, b] =>
        have := a.utf8Size_pos
        have := b.utf8Size_pos
        rw [utf8ByteSize_ofList_cons, utf8ByteSize_ofList_cons, none] at size
        exact .inr ⟨a, b, rfl, by omega, by omega⟩
    | a :: b :: c :: rest =>
        have := a.utf8Size_pos
        have := b.utf8Size_pos
        have := c.utf8Size_pos
        rw [utf8ByteSize_ofList_cons, utf8ByteSize_ofList_cons, utf8ByteSize_ofList_cons] at size
        omega
  · rintro (⟨a, rfl, two⟩ | ⟨a, b, rfl, first, second⟩)
    · rw [utf8ByteSize_ofList_cons, none, two]
    · rw [utf8ByteSize_ofList_cons, utf8ByteSize_ofList_cons, none, first, second]

/-- What stands behind two bytes is found, if a character ends there. -/
theorem Text.behindTwoBytes?_eq_some_iff {cs rest : List Char} :
    Text.behindTwoBytes? cs = some rest ↔
      ∃ mark : String, mark.utf8ByteSize = 2 ∧ cs = mark.toList ++ rest := by
  constructor
  · intro found
    suffices two : ∃ front, cs = front ++ rest ∧ (String.ofList front).utf8ByteSize = 2 by
      obtain ⟨front, split, size⟩ := two
      exact ⟨String.ofList front, size, by rw [String.toList_ofList, split]⟩
    simp only [utf8ByteSize_ofList_eq_two_iff]
    unfold Text.behindTwoBytes? at found
    split at found
    · rename_i a behind
      split_ifs at found with two one
      · obtain rfl := Option.some.inj found
        exact ⟨[a], rfl, .inl ⟨a, rfl, two⟩⟩
      · split at found
        · rename_i b behind
          split_ifs at found with last
          obtain rfl := Option.some.inj found
          exact ⟨[a, b], rfl, .inr ⟨a, b, rfl, one, last⟩⟩
        · cases found
    · cases found
  · rintro ⟨mark, size, rfl⟩
    rw [← String.ofList_toList (s := mark)] at size
    rcases utf8ByteSize_ofList_eq_two_iff.mp size with ⟨a, chars, two⟩ | ⟨a, b, chars, one, last⟩
    · simp [chars, Text.behindTwoBytes?, two]
    · simp [chars, Text.behindTwoBytes?, one, last]

theorem behindTwoBytes?_append {mark digits : String} (size : mark.utf8ByteSize = 2) :
    Text.behindTwoBytes? (mark ++ digits).toList = some digits.toList :=
  Text.behindTwoBytes?_eq_some_iff.mpr ⟨mark, size, String.toList_append⟩

/-- Of a name that begins with two bytes, these are the only mark. -/
theorem exists_isNumbered_append_iff {mark digits : String} {n : Int}
    (size : mark.utf8ByteSize = 2) :
    (∃ mark' : String, mark'.utf8ByteSize = 2 ∧ IsNumbered mark' (mark ++ digits) n) ↔
      Text.IsDecimal digits.toList n := by
  constructor
  · rintro ⟨mark', size', digits', same, decimal⟩
    have found : Text.behindTwoBytes? (mark' ++ digits').toList = some digits'.toList :=
      behindTwoBytes?_append size'
    rw [← same, behindTwoBytes?_append size] at found
    rwa [Option.some.inj found]
  · intro decimal
    exact ⟨mark, size, digits, rfl, decimal⟩

/-! ## Offsets -/

theorem coordinate?_eq_some_iff {name : String} {n : Int} :
    coordinate? name = some n ↔ IsCoordinate (-2147483648) name n := by
  rw [coordinate?, Option.bind_eq_some_iff]
  constructor
  · rintro ⟨rest, found, read⟩
    obtain ⟨mark, size, split⟩ := Text.behindTwoBytes?_eq_some_iff.mp found
    obtain ⟨decimal, bounds⟩ := Text.int32?_eq_some_iff.mp read
    refine ⟨⟨mark, size, String.ofList rest, ?_, ?_⟩, bounds⟩
    · rw [← String.toList_inj, split, String.toList_append, String.toList_ofList]
    · rwa [String.toList_ofList]
  · rintro ⟨⟨mark, size, digits, rfl, decimal⟩, bounds⟩
    exact ⟨digits.toList, behindTwoBytes?_append size,
      Text.int32?_eq_some_iff.mpr ⟨decimal, bounds⟩⟩

/-- An offset that is measured from a coordinate of 32 bits is found if it fits into 32 bits
itself, which only bounds the coordinate from below. -/
theorem filter_map_coordinate?_eq_some_iff {least : Int} {offset : Int → Int}
    (fits : ∀ n, -2147483648 ≤ n ∧ n ≤ 2147483647 →
      (-2147483648 ≤ offset n ∧ offset n ≤ 2147483647 ↔ least ≤ n))
    (above : -2147483648 ≤ least) {name : String} {d : Int} :
    ((coordinate? name).map offset).filter Text.fitsInt32 = some d ↔
      ∃ n, IsCoordinate least name n ∧ d = offset n := by
  rw [Option.filter_eq_some_iff, Option.map_eq_some_iff, Text.fitsInt32_iff]
  constructor
  · rintro ⟨⟨n, read, rfl⟩, bounds⟩
    obtain ⟨named, range⟩ := coordinate?_eq_some_iff.mp read
    exact ⟨n, ⟨named, (fits n range).mp bounds, range.2⟩, rfl⟩
  · rintro ⟨n, ⟨named, low, high⟩, rfl⟩
    have range : -2147483648 ≤ n ∧ n ≤ 2147483647 := ⟨Int.le_trans above low, high⟩
    exact ⟨⟨n, coordinate?_eq_some_iff.mpr ⟨named, range⟩, rfl⟩, (fits n range).mpr low⟩

theorem rightOffset?_eq_some_iff {name : String} {dx : Int} :
    rightOffset? name = some dx ↔ ∃ n, IsCoordinate leastRight name n ∧ dx = n - 750 := by
  refine filter_map_coordinate?_eq_some_iff (fun n range => ?_) (by decide)
  unfold gridMiddle leastRight
  omega

theorem upOffset?_eq_some_iff {name : String} {dy : Int} :
    upOffset? name = some dy ↔ ∃ n, IsCoordinate leastUp name n ∧ dy = 750 - n := by
  refine filter_map_coordinate?_eq_some_iff (fun n range => ?_) (by decide)
  unfold gridMiddle leastUp
  omega

/-- An offset is missing where nothing has it. -/
theorem eq_none_of_eq_some_iff {offset? : Option Int} {coordinate : Int → Prop} {offset : Int → Int}
    (found : ∀ d, offset? = some d ↔ ∃ n, coordinate n ∧ d = offset n)
    (missing : ¬ ∃ n, coordinate n) : offset? = none := by
  rw [Option.eq_none_iff_forall_ne_some]
  intro d some_d
  obtain ⟨n, holds, -⟩ := (found d).mp some_d
  exact missing ⟨n, holds⟩

namespace PositioningRule

/-! ## Rules -/

variable {name : String} {targets : List Target} {context : String × String} {a b : Int}

/-- Without a coordinate to the right, the first name is the error. -/
theorem make_of_not_right (targeted : targets ≠ [])
    (missing : ¬ ∃ a, IsCoordinate leastRight context.1 a) :
    make name targets context = .error (.invalidContext name context.1) := by
  have right := eq_none_of_eq_some_iff (fun _ => rightOffset?_eq_some_iff) missing
  simp [make, targeted, right]

/-- Without a coordinate upwards, the second name is the error. -/
theorem make_of_not_up (targeted : targets ≠ []) (coordinate : IsCoordinate leastRight context.1 a)
    (missing : ¬ ∃ b, IsCoordinate leastUp context.2 b) :
    make name targets context = .error (.invalidContext name context.2) := by
  have right := rightOffset?_eq_some_iff.mpr ⟨a, coordinate, rfl⟩
  have up := eq_none_of_eq_some_iff (fun _ => upOffset?_eq_some_iff) missing
  simp [make, targeted, right, up]

/-- With both there is a rule. -/
theorem make_of_coordinates (targeted : targets ≠ [])
    (right : IsCoordinate leastRight context.1 a) (up : IsCoordinate leastUp context.2 b) :
    make name targets context =
      .ok { name, targets, context, offset := (a - 750, 750 - b) } := by
  have right := rightOffset?_eq_some_iff.mpr ⟨a, right, rfl⟩
  have up := upOffset?_eq_some_iff.mpr ⟨b, up, rfl⟩
  simp [make, targeted, right, up]

/-- The four cases that are told apart in making a rule. -/
theorem coordinates_cases (targets : List Target) (context : String × String) :
    targets = [] ∨
      (targets ≠ [] ∧ ¬ ∃ a, IsCoordinate leastRight context.1 a) ∨
      (targets ≠ [] ∧ (∃ a, IsCoordinate leastRight context.1 a) ∧
        ¬ ∃ b, IsCoordinate leastUp context.2 b) ∨
      (targets ≠ [] ∧ ∃ a b, IsCoordinate leastRight context.1 a ∧
        IsCoordinate leastUp context.2 b) := by
  grind

/-- A rule is made exactly of targets and two coordinates, whatever their marks are, and anything
else is the error that names it first.  Behind the marker, a coordinate is a decimal integer within
the bounds and nothing else. -/
theorem made_exactly_of_coordinates (name : String) (targets : List Target)
    (context : String × String) :
    (∀ r, make name targets context = .ok r ↔
      targets ≠ [] ∧ ∃ a b, IsCoordinate leastRight context.1 a ∧ IsCoordinate leastUp context.2 b ∧
        r = { name, targets, context, offset := (a - 750, 750 - b) }) ∧
    (∀ e, make name targets context = .error e ↔
      (targets = [] ∧ e = .noTargets name) ∨
      (targets ≠ [] ∧ (¬ ∃ a, IsCoordinate leastRight context.1 a) ∧
        e = .invalidContext name context.1) ∨
      (targets ≠ [] ∧ (∃ a, IsCoordinate leastRight context.1 a) ∧
        (¬ ∃ b, IsCoordinate leastUp context.2 b) ∧ e = .invalidContext name context.2)) ∧
    ∀ least digits n, IsCoordinate least (extensionMarker ++ digits) n ↔
      Text.IsDecimal digits.toList n ∧ least ≤ n ∧ n ≤ 2147483647 := by
  refine ⟨fun r => ⟨fun made => ?_, ?_⟩, fun e => ⟨fun made => ?_, ?_⟩, fun least digits n => ?_⟩
  · rcases coordinates_cases targets context with
      rfl | ⟨targeted, none⟩ | ⟨targeted, ⟨a, right⟩, none⟩ | ⟨targeted, a, b, right, up⟩
    · cases made
    · rw [make_of_not_right targeted none] at made
      cases made
    · rw [make_of_not_up targeted right none] at made
      cases made
    · rw [make_of_coordinates targeted right up] at made
      exact ⟨targeted, a, b, right, up, (Except.ok.inj made).symm⟩
  · rintro ⟨targeted, a, b, right, up, rfl⟩
    exact make_of_coordinates targeted right up
  · rcases coordinates_cases targets context with
      rfl | ⟨targeted, none⟩ | ⟨targeted, ⟨a, right⟩, none⟩ | ⟨targeted, a, b, right, up⟩
    · exact .inl ⟨rfl, (Except.error.inj made).symm⟩
    · rw [make_of_not_right targeted none] at made
      exact .inr (.inl ⟨targeted, none, (Except.error.inj made).symm⟩)
    · rw [make_of_not_up targeted right none] at made
      exact .inr (.inr ⟨targeted, ⟨a, right⟩, none, (Except.error.inj made).symm⟩)
    · rw [make_of_coordinates targeted right up] at made
      cases made
  · rintro (⟨rfl, rfl⟩ | ⟨targeted, none, rfl⟩ | ⟨targeted, ⟨a, right⟩, none, rfl⟩)
    · rfl
    · exact make_of_not_right targeted none
    · exact make_of_not_up targeted right none
  · rw [IsCoordinate, exists_isNumbered_append_iff (by decide)]

/-- Rules are made of names that do not begin with the marker. -/
theorem made_of_other_marks :
    make "p1" [.glyph "S26b02"] ("AB500", "é750") =
        .ok { name := "p1", targets := [.glyph "S26b02"], context := ("AB500", "é750"),
              offset := (-250, 0) } ∧
      (¬ ∃ n, IsNumbered extensionMarker "AB500" n) ∧
      ¬ ∃ n, IsNumbered extensionMarker "é750" n := by
  have unmarked {name : String} (front : name.toList.head? ≠ some 'S') :
      ¬ ∃ n, IsNumbered extensionMarker name n := by
    rintro ⟨n, digits, rfl, -⟩
    rw [String.toList_append] at front
    exact front rfl
  exact ⟨by decide, unmarked (by decide), unmarked (by decide)⟩

end PositioningRule

end SymbolFont
