/-
# Codes of characters

A code is a hexadecimal number of 32 bits.  A mark and a plus sign may stand in front of it, the
mark first and each once at most, and blanks around all of it but not inside.  These texts are
decoded to the number, and no other text is.
-/

import SymbolFont.Glyph.CharMap
import SymbolFont.Proofs.Text.Hexadecimal

namespace SymbolFont

/-- Is the text a hexadecimal number with this value, with what may stand in front of it and with
blanks around? -/
def IsCode (code : String) (n : Nat) : Prop :=
  ∃ lead mark plus digits trail : String, code = lead ++ mark ++ plus ++ digits ++ trail ∧
    (∀ c ∈ lead.toList ++ trail.toList, Text.isBlank c = true) ∧
    mark ∈ ["", "0x", "0X"] ∧ plus ∈ ["", "+"] ∧ Text.IsHexNumeral digits.toList n

/-! ## What is stripped -/

/-- At most one mark is stripped. -/
theorem exists_eq_append_stripHexMark (cs : List Char) :
    ∃ mark ∈ ["", "0x", "0X"], cs = mark.toList ++ stripHexMark cs := by
  fun_cases stripHexMark cs with
  | case1 rest => exact ⟨"0x", by decide, rfl⟩
  | case2 rest => exact ⟨"0X", by decide, rfl⟩
  | case3 => exact ⟨"", by decide, rfl⟩

/-- At most one plus sign is stripped. -/
theorem exists_eq_append_withoutPlus (cs : List Char) :
    ∃ plus ∈ ["", "+"], cs = plus.toList ++ Text.withoutPlus cs := by
  fun_cases Text.withoutPlus cs with
  | case1 rest => exact ⟨"+", by decide, rfl⟩
  | case2 => exact ⟨"", by decide, rfl⟩

/-- What may stand in front of digits is stripped from them, and the digits stay. -/
theorem withoutPlus_stripHexMark {mark plus : String} {digits : List Char} {n : Nat}
    (marked : mark ∈ ["", "0x", "0X"]) (signed : plus ∈ ["", "+"])
    (numeral : Text.IsHexNumeral digits n) :
    Text.withoutPlus (stripHexMark (mark.toList ++ plus.toList ++ digits)) = digits := by
  have mark_solid : Text.isHexDigit 'x' = false ∧ Text.isHexDigit 'X' = false := by decide
  have plus_solid : Text.isHexDigit '+' = false := by decide
  -- Nothing that could be stripped stands in the digits.
  have unmarked : stripHexMark digits = digits := by
    fun_cases stripHexMark digits with
    | case1 rest => simpa [mark_solid] using numeral.digits 'x' (by simp)
    | case2 rest => simpa [mark_solid] using numeral.digits 'X' (by simp)
    | case3 => rfl
  have unsigned : Text.withoutPlus digits = digits := by
    fun_cases Text.withoutPlus digits with
    | case1 rest => simpa [plus_solid] using numeral.digits '+' (by simp)
    | case2 => rfl
  have kept : stripHexMark (plus.toList ++ digits) = plus.toList ++ digits := by
    rcases List.mem_pair.mp signed with rfl | rfl
    · exact unmarked
    · rfl
  have sign_stripped : Text.withoutPlus (plus.toList ++ digits) = digits := by
    rcases List.mem_pair.mp signed with rfl | rfl
    · exact unsigned
    · rfl
  rw [List.append_assoc]
  simp only [List.mem_cons, List.not_mem_nil, or_false] at marked
  rcases marked with rfl | rfl | rfl
  · exact (congrArg Text.withoutPlus kept).trans sign_stripped
  · exact sign_stripped
  · exact sign_stripped

theorem isBlank_of_isHexDigit {c : Char} (digit : Text.isHexDigit c = true) :
    Text.isBlank c = false := by
  have read : (Text.hexDigit? c).isSome = true := by
    rw [Text.hexDigit?_eq, if_pos digit]
    rfl
  simp only [Text.hexDigit?, Char.le_def, UInt32.le_iff_toNat_le] at read
  have ranges : (48 ≤ c.toNat ∧ c.toNat ≤ 57) ∨ (97 ≤ c.toNat ∧ c.toNat ≤ 102) ∨
      (65 ≤ c.toNat ∧ c.toNat ≤ 70) := by
    split_ifs at read with decimal lower upper
    · exact .inl decimal
    · exact .inr (.inl lower)
    · exact .inr (.inr upper)
    · exact absurd read Bool.false_ne_true
  exact Text.isBlank_eq_false_of_ascii (by omega) (by omega)

/-- The blanks around a code are trimmed off, and nothing else is. -/
theorem trim_code {lead mark plus trail : String} {digits : List Char} {n : Nat}
    (blank : ∀ c ∈ lead.toList ++ trail.toList, Text.isBlank c = true)
    (marked : mark ∈ ["", "0x", "0X"]) (signed : plus ∈ ["", "+"])
    (numeral : Text.IsHexNumeral digits n) :
    Text.trim (lead.toList ++ (mark.toList ++ plus.toList ++ digits) ++ trail.toList) =
      mark.toList ++ plus.toList ++ digits := by
  have solid (cs : List Char) (all : cs.all (fun c => !Text.isBlank c) = true) :
      ∀ c ∈ cs, Text.isBlank c = false := by
    simpa using all
  have mark_solid : ∀ c ∈ mark.toList, Text.isBlank c = false := by
    simp only [List.mem_cons, List.not_mem_nil, or_false] at marked
    rcases marked with rfl | rfl | rfl <;> exact solid _ (by decide)
  have plus_solid : ∀ c ∈ plus.toList, Text.isBlank c = false := by
    rcases List.mem_pair.mp signed with rfl | rfl <;> exact solid _ (by decide)
  refine Text.trim_padded blank fun c mem => ?_
  rcases List.mem_append.mp mem with front | digit
  · rcases List.mem_append.mp front with of_mark | of_plus
    · exact mark_solid c of_mark
    · exact plus_solid c of_plus
  · exact isBlank_of_isHexDigit (numeral.digits c digit)

/-! ## What is decoded -/

/-- The digits of a code are those that are left when it is stripped. -/
theorem isCode_iff {code : String} {n : Nat} : IsCode code n ↔
    Text.IsHexNumeral (Text.withoutPlus (stripHexMark (Text.trim code.toList))) n := by
  constructor
  · rintro ⟨lead, mark, plus, digits, trail, rfl, blank, marked, signed, numeral⟩
    have stripped := withoutPlus_stripHexMark marked signed numeral
    rw [← trim_code blank marked signed numeral] at stripped
    simp only [String.toList_append, List.append_assoc] at stripped ⊢
    rwa [stripped]
  · intro numeral
    obtain ⟨lead, trail, padded, blank⟩ := Text.exists_eq_append_trim code.toList
    obtain ⟨mark, marked, front⟩ := exists_eq_append_stripHexMark (Text.trim code.toList)
    obtain ⟨plus, signed, rest⟩ :=
      exists_eq_append_withoutPlus (stripHexMark (Text.trim code.toList))
    refine ⟨String.ofList lead, mark, plus,
      String.ofList (Text.withoutPlus (stripHexMark (Text.trim code.toList))),
      String.ofList trail, ?_, ?_, marked, signed, ?_⟩
    · rw [← String.toList_inj]
      simp only [String.toList_append, String.toList_ofList]
      rw [List.append_assoc lead, List.append_assoc lead, List.append_assoc mark.toList,
        ← rest, ← front, ← padded]
    · simpa only [String.toList_ofList] using blank
    · simpa only [String.toList_ofList] using numeral

/-- A code of 32 bits is decoded to its value, and nothing else is decoded. -/
theorem codePoint?_eq_some_iff {code : String} {v : UInt32} :
    codePoint? code = some v ↔ IsCode code v.toNat := by
  rw [isCode_iff, ← Text.hexValue?_eq_some_iff, codePoint?, Option.bind_eq_some_iff]
  constructor
  · rintro ⟨n, read, fits⟩
    split_ifs at fits with small
    rw [← Option.some.inj fits, UInt32.toNat_ofNat_of_lt' small]
    exact read
  · intro read
    refine ⟨v.toNat, read, ?_⟩
    rw [if_pos v.toNat_lt_size, UInt32.ofNat_toNat]

/-- Every way of writing a natural is a code of it. -/
theorem IsCode.of_written {lead mark plus digits trail : String} {zeros n : Nat}
    (blank : ∀ c ∈ lead.toList ++ trail.toList, Text.isBlank c = true)
    (marked : mark ∈ ["", "0x", "0X"]) (signed : plus ∈ ["", "+"])
    (written : digits.toList.map Char.toLower =
      List.replicate zeros '0' ++ Nat.toDigits 16 n) :
    IsCode (lead ++ mark ++ plus ++ digits ++ trail) n :=
  ⟨lead, mark, plus, digits, trail, rfl, blank, marked, signed,
    Text.isHexNumeral_of_map_toLower written⟩

/-- The code of an entry is decoded exactly: to a number of 32 bits if it is a code of this number,
and to nothing if it is a code of no such number.  So a number is decoded from each way of writing
it: with a mark or without, with a sign or without, with letters in either case and with any number
of zeros in front. -/
theorem CharMapEntry.code_decoded_exactly (e : CharMapEntry) :
    (∀ v : UInt32, e.codePoint? = some v ↔ IsCode e.code v.toNat) ∧
      (e.codePoint? = none ↔ ∀ n < 2 ^ 32, ¬ IsCode e.code n) ∧
      ∀ (v : UInt32) (lead mark plus digits trail : String) (zeros : Nat),
        (∀ c ∈ lead.toList ++ trail.toList, Text.isBlank c = true) →
        mark ∈ ["", "0x", "0X"] → plus ∈ ["", "+"] →
        digits.toList.map Char.toLower = List.replicate zeros '0' ++ Nat.toDigits 16 v.toNat →
        e.code = lead ++ mark ++ plus ++ digits ++ trail → e.codePoint? = some v := by
  have decoded : ∀ v : UInt32, e.codePoint? = some v ↔ IsCode e.code v.toNat := fun v =>
    codePoint?_eq_some_iff
  refine ⟨decoded, ?_, ?_⟩
  · rw [Option.eq_none_iff_forall_ne_some]
    constructor
    · intro unread n small code
      exact unread (UInt32.ofNat n) ((decoded _).mpr (by rwa [UInt32.toNat_ofNat_of_lt' small]))
    · intro no_code v read
      exact no_code v.toNat v.toNat_lt_size ((decoded v).mp read)
  · intro v lead mark plus digits trail zeros blank marked signed written code
    rw [decoded v, code]
    exact IsCode.of_written blank marked signed written

/-- The mark is stripped once only, and blanks inside stay. -/
example : (["\u2003 0X+00041\n", "0x0x41", "0x 41", "+0x41", "100000041"].map fun code =>
    (CharMapEntry.mk "S10000" code).codePoint?) = [some 0x41, none, none, none, none] := by
  decide

end SymbolFont
