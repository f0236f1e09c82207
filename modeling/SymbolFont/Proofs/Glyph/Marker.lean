/-
# Markers in names

The class of a name goes by where the marker occurs in it, with a digit behind it or without one.
This is told here by how the name can be written as texts behind one another, whatever number of
markers there are and whatever else the name holds.

A name is stored in bytes.  The marker can be looked for among them, and the digit at the position
behind it: that is never inside a character, since no byte of the marker occurs in a character of
more than one byte.
-/

import SymbolFont.Proofs.Edit.Names
import SymbolFont.Proofs.Glyph.Class
import SymbolFont.Proofs.Markup.Encoding
import SymbolFont.Text.Sink

namespace SymbolFont

/-! ## Occurrences -/

/-- A text occurs in another if that can be written with it in the middle. -/
theorem exists_eq_append_iff_infix {name text : String} :
    (∃ front behind, name = front ++ text ++ behind) ↔ text.toList <:+: name.toList := by
  constructor
  · rintro ⟨front, behind, rfl⟩
    exact ⟨front.toList, behind.toList, by simp⟩
  · rintro ⟨front, behind, split⟩
    refine ⟨String.ofList front, String.ofList behind, ?_⟩
    rw [← String.toList_inj, ← split]
    simp

namespace GlyphClass

/-- Looking for a number finds it wherever it stands. -/
theorem hasNumeral_iff_infix {cs : List Char} :
    hasNumeral cs = true ↔ ∃ d, isNumeralDigit d = true ∧ ['S', 'W', d] <:+: cs := by
  induction cs using hasNumeral.induct with
  | case1 rest ih =>
      have behind (d : Char) : ['S', 'W', d] <:+: 'S' :: 'W' :: rest ↔
          rest.head? = some d ∨ ['S', 'W', d] <:+: rest := by
        have first : [d] <+: rest ↔ rest.head? = some d := by
          cases rest <;> simp [List.cons_prefix_cons, eq_comm]
        simp [List.infix_cons_iff, List.cons_prefix_cons, first]
      rw [hasNumeral, Bool.or_eq_true, ih, Option.any_eq_true]
      simp only [behind, or_and_right, exists_or, and_comm (a := isNumeralDigit _ = true)]
  | case2 c rest no_marker ih =>
      have behind (d : Char) : ['S', 'W', d] <:+: c :: rest ↔ ['S', 'W', d] <:+: rest := by
        rw [List.infix_cons_iff]
        refine or_iff_right ?_
        rintro ⟨tail, front⟩
        injection front with first others
        exact no_marker (d :: tail) first.symm others.symm
      rw [hasNumeral, ih]
      · simp only [behind]
      · exact no_marker
  | case3 => simp [hasNumeral]

end GlyphClass

/-! ## Positions of bytes -/

/-- The positions at which the marker begins in bytes, of which the first is at the given one.
Occurrences are found from left to right, each behind the one before. -/
def markerOffsets : Nat → List UInt8 → List Nat
  | i, 0x53 :: 0x57 :: rest => i :: markerOffsets (i + 2) rest
  | i, _ :: rest => markerOffsets (i + 1) rest
  | _, [] => []

/-- The text behind a number of bytes.  There is none if they end inside a character, or if the
text has fewer. -/
def behindBytes? (text : String) (bytes : Nat) : Option String :=
  if valid : String.Pos.Raw.IsValid text ⟨bytes⟩ then
    some (text.sliceFrom (text.pos ⟨bytes⟩ valid)).copy
  else none

/-- Does the marker occur with a digit from 2 to 7 behind it?  The digit is looked for in the text
behind the two bytes of an occurrence. -/
def hasNumeralAt? (name : String) : Option Bool :=
  (markerOffsets 0 (Text.bytesOf name)).anyM fun i =>
    (behindBytes? name (i + 2)).map fun rest => rest.toList.head?.any isNumeralDigit

/-- The class of a name, as it is found with positions of bytes. -/
def GlyphClass.at? (name : String) : Option GlyphClass :=
  if reservedNames.contains name then some .reserved
  else if name = boxName then some .box
  else (hasNumeralAt? name).map fun numeral =>
    if numeral then .numeral
    else if markerOffsets 0 (Text.bytesOf name) ≠ [] then .extension
    else .base

theorem behindBytes?_append (front rest : String) :
    behindBytes? (front ++ rest) front.utf8ByteSize = some rest := by
  have valid : String.Pos.Raw.IsValid (front ++ rest) ⟨front.utf8ByteSize⟩ :=
    String.Pos.Raw.isValid_iff_exists_append.mpr ⟨front, rest, rfl, rfl⟩
  rw [behindBytes?, dif_pos valid]
  exact congrArg some String.Pos.splits_append_rawEndPos.copy_sliceFrom_eq

/-- A character that is not ASCII has no byte that is. -/
theorem le_toNat_of_mem_utf8EncodeChar {c : Char} (large : 0x7f < c.toNat) {b : UInt8}
    (mem : b ∈ String.utf8EncodeChar c) : 0x80 ≤ b.toNat := by
  have number : c.val.toNat = c.toNat := rfl
  rw [String.utf8EncodeChar, number, if_neg (Nat.not_le.mpr large)] at mem
  split_ifs at mem <;> simp only [List.mem_cons, List.not_mem_nil, or_false] at mem
  · rcases mem with rfl | rfl <;> rw [Markup.Decoder.toNat_ofNat_of_lt] <;> omega
  · rcases mem with rfl | rfl | rfl <;> rw [Markup.Decoder.toNat_ofNat_of_lt] <;> omega
  · rcases mem with rfl | rfl | rfl | rfl <;> rw [Markup.Decoder.toNat_ofNat_of_lt] <;> omega

theorem bytesOf_eq_flatMap (text : String) :
    Text.bytesOf text = text.toList.flatMap String.utf8EncodeChar := Markup.toList_toUTF8 text

/-- Bytes that are not ASCII are passed over. -/
theorem markerOffsets_append {bytes : List UInt8} (large : ∀ b ∈ bytes, 0x80 ≤ b.toNat) (i : Nat)
    (rest : List UInt8) :
    markerOffsets i (bytes ++ rest) = markerOffsets (i + bytes.length) rest := by
  induction bytes generalizing i with
  | nil => rfl
  | cons b bytes ih =>
      have not_marker : b ≠ 0x53 := by
        rintro rfl
        exact absurd (large _ List.mem_cons_self) (by decide)
      rw [List.cons_append, markerOffsets]
      · rw [ih fun b mem => large b (List.mem_cons_of_mem _ mem), List.length_cons]
        congr 1
        omega
      · rintro tail rfl
        exact absurd rfl not_marker

theorem utf8EncodeChar_of_ascii {c : Char} (small : c.toNat ≤ 0x7f) :
    String.utf8EncodeChar c = [UInt8.ofNat c.toNat] := by
  rw [String.utf8EncodeChar]
  exact if_pos small

/-- An ASCII byte at the front of characters is the first of them. -/
theorem toNat_eq_of_flatMap_eq_cons {c : Char} {cs : List Char} {b : UInt8} {rest : List UInt8}
    (ascii : b.toNat < 0x80) (front : (c :: cs).flatMap String.utf8EncodeChar = b :: rest) :
    c.toNat = b.toNat ∧ cs.flatMap String.utf8EncodeChar = rest := by
  rw [List.flatMap_cons] at front
  by_cases large : 0x7f < c.toNat
  · obtain ⟨first, others, bytes⟩ :=
      List.exists_cons_of_ne_nil (String.utf8EncodeChar_ne_nil (c := c))
    rw [bytes] at front
    injection front with same _
    have high := le_toNat_of_mem_utf8EncodeChar large (bytes ▸ List.mem_cons_self)
    rw [same] at high
    omega
  · have small := Nat.not_lt.mp large
    rw [utf8EncodeChar_of_ascii small] at front
    injection front with same others
    rw [← same, Markup.Decoder.toNat_ofNat_of_lt (by omega)]
    exact ⟨rfl, others⟩

/-- A character that begins no marker is passed over. -/
theorem markerOffsets_cons {c : Char} {cs : List Char}
    (no_marker : ∀ rest, c = 'S' → cs = 'W' :: rest → False) (i : Nat) :
    markerOffsets i ((c :: cs).flatMap String.utf8EncodeChar) =
      markerOffsets (i + c.utf8Size) (cs.flatMap String.utf8EncodeChar) := by
  by_cases large : 0x7f < c.toNat
  · rw [List.flatMap_cons, markerOffsets_append fun _ => le_toNat_of_mem_utf8EncodeChar large,
      String.length_utf8EncodeChar]
  · have bytes := utf8EncodeChar_of_ascii (Nat.not_lt.mp large)
    have size : c.utf8Size = 1 := by
      rw [← String.length_utf8EncodeChar, bytes, List.length_singleton]
    rw [List.flatMap_cons, bytes, size, List.singleton_append, markerOffsets]
    intro rest first second
    have is_S : c = 'S' := by
      rw [← Char.toNat_inj]
      have same := congrArg UInt8.toNat first
      rwa [Markup.Decoder.toNat_ofNat_of_lt (by omega)] at same
    cases cs with
    | nil => cases second
    | cons d ds =>
        have is_W : d = 'W' := Char.toNat_inj.mp (toNat_eq_of_flatMap_eq_cons (by decide) second).1
        exact no_marker ds is_S (congrArg (· :: ds) is_W)

/-- A marker is found. -/
theorem markerOffsets_marker (i : Nat) (cs : List Char) :
    markerOffsets i (('S' :: 'W' :: cs).flatMap String.utf8EncodeChar) =
      i :: markerOffsets (i + 2) (cs.flatMap String.utf8EncodeChar) := rfl

/-- There are such positions if the name has the marker. -/
theorem markerOffsets_ne_nil_iff {cs : List Char} (i : Nat) :
    markerOffsets i (cs.flatMap String.utf8EncodeChar) ≠ [] ↔ hasMarker cs = true := by
  induction cs using hasMarker.induct generalizing i with
  | case1 rest =>
      rw [markerOffsets_marker]
      exact iff_of_true (List.cons_ne_nil _ _) rfl
  | case2 c rest no_marker ih =>
      rw [markerOffsets_cons no_marker, hasMarker, ih]
      exact no_marker
  | case3 => simp [markerOffsets, hasMarker]

/-- Behind every marker the text is found, since a character ends there. -/
theorem anyM_markerOffsets (front : String) (cs : List Char) :
    ((markerOffsets front.utf8ByteSize (cs.flatMap String.utf8EncodeChar)).anyM fun i =>
      (behindBytes? (front ++ String.ofList cs) (i + 2)).map fun rest =>
        rest.toList.head?.any isNumeralDigit) = some (hasNumeral cs) := by
  induction cs using hasNumeral.induct generalizing front with
  | case1 rest ih =>
      have split : front ++ String.ofList ('S' :: 'W' :: rest) =
          front ++ extensionMarker ++ String.ofList rest := by
        rw [← String.toList_inj]
        simp [extensionMarker]
      have size : (front ++ extensionMarker).utf8ByteSize = front.utf8ByteSize + 2 :=
        String.utf8ByteSize_append
      have later := ih (front ++ extensionMarker)
      have found := behindBytes?_append (front ++ extensionMarker) (String.ofList rest)
      rw [size] at later found
      rw [markerOffsets_marker, List.anyM_cons, split, found, later, hasNumeral]
      cases first : rest.head?.any isNumeralDigit <;> simp [first]
  | case2 c rest no_marker ih =>
      have split : front ++ String.ofList (c :: rest) =
          front ++ String.singleton c ++ String.ofList rest := by
        rw [← String.toList_inj]
        simp
      have size : (front ++ String.singleton c).utf8ByteSize = front.utf8ByteSize + c.utf8Size := by
        rw [String.utf8ByteSize_append, String.utf8ByteSize_singleton]
      have later := ih (front ++ String.singleton c)
      rw [size] at later
      rw [markerOffsets_cons no_marker, split, hasNumeral, later]
      exact no_marker
  | case3 => rfl

namespace GlyphClass

/-- No position behind a marker is inside a character, so the class is found. -/
theorem at?_eq_some (name : String) : GlyphClass.at? name = some (GlyphClass.of name) := by
  have numeral : hasNumeralAt? name = some (hasNumeral name.toList) := by
    have found := anyM_markerOffsets "" name.toList
    rwa [← bytesOf_eq_flatMap, String.ofList_toList, String.empty_append] at found
  have marked : markerOffsets 0 (Text.bytesOf name) ≠ [] ↔ hasMarker name.toList = true := by
    rw [bytesOf_eq_flatMap]
    exact markerOffsets_ne_nil_iff 0
  unfold GlyphClass.at? GlyphClass.of
  rw [numeral]
  simp only [marked, Option.map_some]
  split_ifs <;> rfl

/-! ## Classes -/

theorem of_eq_reserved_iff (name : String) :
    GlyphClass.of name = .reserved ↔ name ∈ reservedNames := by
  constructor
  · intro reserved
    by_contra other
    have not_reserved : ¬ reservedNames.contains name = true := by simpa using other
    unfold GlyphClass.of at reserved
    rw [if_neg not_reserved] at reserved
    split_ifs at reserved
  · intro mem
    exact if_pos (List.contains_iff_mem.mpr mem)

/-- No name with a meaning of its own is that of a number. -/
theorem of_eq_numeral_iff (name : String) :
    GlyphClass.of name = .numeral ↔ hasNumeral name.toList = true := by
  constructor
  · intro numeral
    by_contra other
    unfold GlyphClass.of at numeral
    split_ifs at numeral
  · intro numeral
    have others : ∀ n ∈ boxName :: reservedNames, hasNumeral n.toList = false := by decide
    have apart : name ∉ boxName :: reservedNames := by
      intro mem
      rw [others name mem] at numeral
      cases numeral
    obtain ⟨not_box, not_reserved⟩ := not_or.mp (List.mem_cons.not.mp apart)
    unfold GlyphClass.of
    rw [if_neg (by simpa using not_reserved), if_neg not_box, if_pos numeral]

/-- The class of a name is told by how the name can be written: as one of the names with a meaning
of their own, or as texts with the marker between them, and with a digit from 2 to 7 behind it for
a number.  It is found in the bytes of every name, and whether it is that of an extension glyph is
the same when the name is corrected. -/
theorem classified_by_occurrence (name : String) :
    (GlyphClass.of name = .box ↔ name = "SWM") ∧
      (GlyphClass.of name = .reserved ↔
        name = ".notdef" ∨ name = ".null" ∨ name = "nonmarkingreturn") ∧
      (GlyphClass.of name = .numeral ↔ ∃ (front behind : String) (d : Char),
        ('2' ≤ d ∧ d ≤ '7') ∧ name = front ++ "SW" ++ String.singleton d ++ behind) ∧
      ((GlyphClass.of name).isExtension = true ↔
        ∃ front behind : String, name = front ++ "SW" ++ behind) ∧
      ((GlyphClass.of name).isScaled = true ↔ GlyphClass.of name ≠ .box ∧
        GlyphClass.of name ≠ .reserved ∧ GlyphClass.of name ≠ .numeral) ∧
      GlyphClass.at? name = some (GlyphClass.of name) ∧
      (GlyphClass.of (corrected name)).isExtension = (GlyphClass.of name).isExtension := by
  refine ⟨of_eq_box_iff name, ?_, ?_, ?_, ?_, at?_eq_some name, isExtension_corrected name⟩
  · rw [of_eq_reserved_iff]
    simp [reservedNames]
  · have digit_iff (d : Char) : isNumeralDigit d = true ↔ '2' ≤ d ∧ d ≤ '7' := by
      simp [isNumeralDigit]
    have occurs (d : Char) : ['S', 'W', d] <:+: name.toList ↔
        ∃ front behind, name = front ++ "SW" ++ String.singleton d ++ behind := by
      have marked : ("SW" ++ String.singleton d).toList = ['S', 'W', d] := by simp
      rw [← marked, ← exists_eq_append_iff_infix]
      simp only [String.append_assoc]
    rw [of_eq_numeral_iff, hasNumeral_iff_infix]
    constructor
    · rintro ⟨d, digit, mem⟩
      obtain ⟨front, behind, split⟩ := (occurs d).mp mem
      exact ⟨front, behind, d, (digit_iff d).mp digit, split⟩
    · rintro ⟨front, behind, d, digit, split⟩
      exact ⟨d, (digit_iff d).mpr digit, (occurs d).mpr ⟨front, behind, split⟩⟩
  · rw [isExtension_of, hasMarker_iff_infix]
    exact exists_eq_append_iff_infix.symm
  · cases GlyphClass.of name <;> simp [isScaled]

end GlyphClass

end SymbolFont
