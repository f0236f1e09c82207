/-
# Numbers of glyphs

Which half of the character map an entry is numbered in depends on whether its name holds the
marker, and correcting a name does not change that.  So the glyphs of a revised font have the
numbers that they had before, whether they are taken from the font or from what it writes.
-/

import Mathlib.Tactic.Common
import SymbolFont.Edit.Standard
import SymbolFont.Layout.Numbering
import SymbolFont.Proofs.Edit.Names
import SymbolFont.Proofs.Edit.Reload
import SymbolFont.Proofs.Edit.Standard
import SymbolFont.Proofs.Glyph.Class

namespace SymbolFont

open Markup

/-! ## Renaming entries -/

/-- Give the glyph of a definition another name. -/
def GlyphDefinition.rename (d : GlyphDefinition) (name : String) : GlyphDefinition :=
  { d with name }

/-- The same failure where glyphs have other names. -/
def GenerateError.mapName (fix : String → String) : GenerateError → GenerateError
  | .invalidCodePoint name code => .invalidCodePoint (fix name) code
  | .refused => .refused

section Renaming

variable {fix : String → String}

/-- Numbers go by the order of entries, and their codes by themselves. -/
theorem numberFrom_map_rename (id : Nat) (entries : List CharMapEntry) :
    numberFrom id (entries.map fun e => e.rename (fix e.name)) =
      ((numberFrom id entries).map (List.map fun d => d.rename (fix d.name))).mapError
        (GenerateError.mapName fix) := by
  induction entries generalizing id with
  | nil => rfl
  | cons e entries ih =>
      have code : (e.rename (fix e.name)).codePoint? = e.codePoint? := rfl
      rw [List.map_cons, numberFrom, numberFrom, code, ih]
      cases e.codePoint? with
      | none => rfl
      | some c => cases numberFrom (id + 1) entries <;> rfl

/-- Renaming leaves the order of numbering alone if it leaves entries in their halves. -/
theorem numberingOrder_map_rename
    (same : ∀ name, (GlyphClass.of (fix name)).isExtension = (GlyphClass.of name).isExtension)
    (charMap : List CharMapEntry) :
    numberingOrder (charMap.map fun e => e.rename (fix e.name)) =
      (numberingOrder charMap).map fun e => e.rename (fix e.name) := by
  have half : ∀ h : Half, h.entries (charMap.map fun e => e.rename (fix e.name)) =
      (h.entries charMap).map fun e => e.rename (fix e.name) := by
    intro h
    have contains : (h.contains ∘ fun e : CharMapEntry => e.rename (fix e.name)) = h.contains := by
      funext e
      exact congrArg (· == decide (h = .extension)) (same e.name)
    rw [Half.entries, Half.entries, List.filter_map, contains]
  rw [numberingOrder, numberingOrder, half, half, List.map_append]

end Renaming

/-! ## Which entry gets which number -/

theorem Half.contains_base : Half.base.contains = fun e => !e.cls.isExtension := by
  funext e
  cases extension : e.cls.isExtension <;> simp [Half.contains, extension]

theorem Half.contains_extension : Half.extension.contains = fun e => e.cls.isExtension := by
  funext e
  simp [Half.contains]

/-- The two halves make up the map, each in its order. -/
theorem perm_numberingOrder (charMap : List CharMapEntry) :
    (numberingOrder charMap).Perm charMap := by
  rw [numberingOrder, Half.entries, Half.entries, Half.contains_base, Half.contains_extension]
  exact (List.perm_append_comm).trans (List.filter_append_perm _ _)

/-- Every entry is numbered. -/
theorem mem_numberingOrder {charMap : List CharMapEntry} {e : CharMapEntry} :
    e ∈ numberingOrder charMap ↔ e ∈ charMap :=
  (perm_numberingOrder charMap).mem_iff

/-- Numbers follow one another, and every definition has the name and the code point of the entry
in its place. -/
theorem numberFrom_eq_ok_iff {id : Nat} {entries : List CharMapEntry}
    {ids : List GlyphDefinition} :
    numberFrom id entries = .ok ids ↔
      ids.map GlyphDefinition.id = List.range' id entries.length ∧
        ids.map (fun d => (d.name, some d.code)) =
          entries.map fun e => (e.name, e.codePoint?) := by
  induction entries generalizing id ids with
  | nil => cases ids <;> simp [numberFrom]
  | cons e entries ih =>
      rw [numberFrom]
      cases read : e.codePoint? with
      | none => cases ids <;> simp [read]
      | some code =>
          cases ids with
          | nil => cases numberFrom (id + 1) entries <;> simp
          | cons d ids =>
              have tail := @ih (id + 1) ids
              cases later : numberFrom (id + 1) entries with
              | error fault =>
                  rw [later] at tail
                  simp only [reduceCtorEq, false_iff, not_and] at tail
                  simpa [List.range'_succ, read] using fun _ same _ _ => tail same
              | ok rest =>
                  rw [later, Except.ok.injEq] at tail
                  simp only [Except.ok.injEq, List.cons.injEq, List.map_cons, List.length_cons,
                    List.range'_succ, read, tail, Prod.mk.injEq, Option.some.injEq]
                  cases d
                  simp only [GlyphDefinition.mk.injEq]
                  tauto

/-- Numbering fails for the first entry with a code that cannot be read. -/
theorem numberFrom_eq_error_iff {id : Nat} {entries : List CharMapEntry}
    {fault : GenerateError} :
    numberFrom id entries = .error fault ↔
      ∃ e, entries.find? (fun e => e.codePoint?.isNone) = some e ∧
        fault = .invalidCodePoint e.name e.code := by
  induction entries generalizing id with
  | nil => simp [numberFrom]
  | cons e entries ih =>
      rw [numberFrom]
      cases read : e.codePoint? with
      | none => simp [read, eq_comm]
      | some code =>
          have tail := @ih (id + 1)
          rw [List.find?_cons_of_neg (by simp [read]), ← tail]
          cases numberFrom (id + 1) entries <;> simp

/-- Entries that are numbered have codes that can be read. -/
theorem codePoint?_of_numberFrom {id : Nat} {entries : List CharMapEntry}
    {ids : List GlyphDefinition} (numbered : numberFrom id entries = .ok ids) :
    ∀ e ∈ entries, e.codePoint?.isSome := by
  intro e mem
  have paired : (e.name, e.codePoint?) ∈ ids.map fun d => (d.name, some d.code) := by
    rw [(numberFrom_eq_ok_iff.mp numbered).2]
    exact List.mem_map_of_mem mem
  obtain ⟨d, -, same⟩ := List.mem_map.mp paired
  rw [← (Prod.mk.inj same).2]
  rfl

/-- Numbering fails for an entry. -/
theorem exists_invalidCodePoint_of_numberFrom {id : Nat} {entries : List CharMapEntry}
    {fault : GenerateError} (failed : numberFrom id entries = .error fault) :
    ∃ name code, fault = .invalidCodePoint name code := by
  obtain ⟨e, -, same⟩ := numberFrom_eq_error_iff.mp failed
  exact ⟨e.name, e.code, same⟩

/-! ## Correcting names -/

/-- The glyphs of a font with corrected names have the numbers that they had before. -/
theorem assignIds_correctNames (charMap : List CharMapEntry) :
    assignIds (charMap.map fun e => e.rename (corrected e.name)) =
      ((assignIds charMap).map (List.map fun d => d.rename (corrected d.name))).mapError
        (GenerateError.mapName corrected) := by
  rw [assignIds, numberingOrder_map_rename isExtension_corrected, numberFrom_map_rename, assignIds]

/-- A text that begins with a solid character still does so when it is trimmed. -/
theorem exists_trim_cons {c : Char} (solid : Text.isBlank c = false) (cs : List Char) :
    ∃ rest, Text.trim (c :: cs) = c :: rest := by
  have front : (c :: cs).dropWhile Text.isBlank = c :: cs := by simp [solid]
  rw [Text.trim, front, List.reverse_cons, List.dropWhile_append]
  split <;> simp [solid]

/-- A code that could be taken for a name is no code. -/
theorem codePoint?_of_marked {code : String} (marked : "SW ".toList <+: code.toList) :
    codePoint? code = none := by
  obtain ⟨behind, split⟩ := marked
  have first : code.toList = 'S' :: ("W ".toList ++ behind) := by rw [← split]; rfl
  obtain ⟨rest, trimmed⟩ := exists_trim_cons (by decide : Text.isBlank 'S' = false)
    ("W ".toList ++ behind)
  have unread : Text.hexValue? ('S' :: rest) = none := rfl
  rw [codePoint?, first, trimmed]
  show (Text.hexValue? ('S' :: rest)).bind _ = none
  rw [unread]
  rfl

/-- Codes that can be read are no names. -/
theorem map_corrected_codes {charMap : List CharMapEntry} {ids : List GlyphDefinition}
    (numbered : assignIds charMap = .ok ids) :
    (charMap.map CharMapEntry.code).map corrected = charMap.map CharMapEntry.code := by
  rw [List.map_map]
  refine List.map_congr_left fun e mem => corrected_eq_self fun marked => ?_
  have some := codePoint?_of_numberFrom numbered e (mem_numberingOrder.mpr mem)
  have none : e.codePoint? = none := codePoint?_of_marked marked
  rw [none] at some
  cases some

/-! ## The standard revision -/

/-- The template of the standard revision is read from a text. -/
theorem parsed_of_template {read : ReadFile} {o : EditOptions} {template : BoxTemplate}
    {notes : List Event} (readable : o.template read = .ok (template, notes)) :
    (Edit.boxOutline template).Parsed := by
  unfold EditOptions.template at readable
  cases chosen : o.boxTemplate with
  | none => rw [chosen] at readable; exact ⟨_, _, readable⟩
  | some path =>
      rw [chosen] at readable
      simp only [BoxTemplate.load] at readable
      cases content : read.text path with
      | error fault => rw [content] at readable; cases readable
      | ok text => rw [content] at readable; exact ⟨_, _, readable⟩

theorem parsed_standardEdits {template : BoxTemplate} (scale width : Float)
    (parsed : (Edit.boxOutline template).Parsed) :
    ∀ edit ∈ standardEdits template scale width, edit.Parsed := by
  simpa [standardEdits, Edit.Parsed] using parsed

/-- The standard revision changes nothing in the character map but names. -/
theorem charMap_of_run_standardEdits {template : BoxTemplate} {scale width : Float}
    {f f' : Font Float} (result : Edit.run (standardEdits template scale width) f = .ok f') :
    f'.charMap = f.charMap.map fun e => e.rename (corrected e.name) := by
  rw [Edit.run_standardEdits, Font.setBoxOutline?] at result
  cases found : (f.correctNames.setBoxWidth width).glyph? boxName with
  | none => rw [found] at result; cases result
  | some g => rw [found] at result; cases result; rfl

/-- Glyphs keep their numbers in the standard revision, and their code points, while their
names are corrected; what the revised font writes gives them the same numbers.  If an entry
has a code that cannot be read, the revision is told of the same entry. -/
theorem glyph_ids_survive_revision {read : ReadFile} {o : EditOptions} {edits : List Edit}
    {notes : List Event} {document : Element} {f f' : Font Float}
    (built : o.edits read = .ok (edits, notes)) (source : Font.ofDocument document = .ok f)
    (result : Edit.run edits f = .ok f') :
    match assignIds f.charMap with
    | .ok ids =>
        assignIds f'.charMap = .ok (ids.map fun d => { d with name := corrected d.name }) ∧
          ∃ g, Font.ofDocument f'.toDocument = .ok g ∧
            assignIds g.charMap = assignIds f'.charMap
    | .error fault =>
        ∃ name code, fault = .invalidCodePoint name code ∧
          assignIds f'.charMap = .error (.invalidCodePoint (corrected name) code) := by
  unfold EditOptions.edits at built
  cases readable : o.template read with
  | error cause => rw [readable] at built; cases built
  | ok pair =>
      obtain ⟨template, events⟩ := pair
      rw [readable] at built
      cases built
      have charMap := charMap_of_run_standardEdits result
      have ids_after := assignIds_correctNames f.charMap
      rw [← charMap] at ids_after
      cases before : assignIds f.charMap with
      | error fault =>
          obtain ⟨name, code, rfl⟩ := exists_invalidCodePoint_of_numberFrom before
          rw [before] at ids_after
          exact ⟨name, code, rfl, ids_after⟩
      | ok ids =>
          rw [before] at ids_after
          have parsed := parsed_standardEdits o.scale o.boxWidth (parsed_of_template readable)
          -- The codes of the document are corrected like all its values, which makes no
          -- difference to codes that can be read.
          have stores : f'.Stores ((f.charMap.map CharMapEntry.code).map corrected) :=
            Edit.stores_of_run parsed (Font.stores_of_ofDocument source) result
          have codes : f.charMap.map CharMapEntry.code = f'.charMap.map CharMapEntry.code := by
            rw [charMap, List.map_map]
            rfl
          rw [map_corrected_codes before, codes] at stores
          refine ⟨ids_after, f'.asWritten _, stores.reload, ?_⟩
          exact congrArg assignIds f'.withCodes_map_code

/-- Of the glyphs of the sample the letter is numbered first.  The other two turn from extension
glyphs into the box and a number, and all keep their numbers. -/
theorem glyph_ids_survive_revision_of_sample :
    let read : ReadFile := fun _ =>
      .ok "<TTGlyph name='M' xMin='0' yMin='0' xMax='1' yMax='1'/>".toUTF8
    let o : EditOptions := { boxTemplate := some "box.xml" }
    ∃ edits notes f', o.edits read = .ok (edits, notes) ∧
      Font.ofDocument sampleDocument = .ok sampleFont ∧
      Edit.run edits sampleFont = .ok f' ∧
      assignIds sampleFont.charMap =
        .ok [⟨"A", 3, 0x41⟩, ⟨"SW M", 4, 0x40⟩, ⟨"SW 250", 5, 0x42⟩] ∧
      assignIds f'.charMap = .ok [⟨"A", 3, 0x41⟩, ⟨"SWM", 4, 0x40⟩, ⟨"SW250", 5, 0x42⟩] ∧
      ∃ g, Font.ofDocument f'.toDocument = .ok g ∧ assignIds g.charMap = assignIds f'.charMap := by
  intro read o
  have succeeds : ((o.edits read).toOption.bind fun (edits, _) =>
      (Edit.run edits sampleFont).toOption).isSome = true := by decide +kernel
  have numbered : assignIds sampleFont.charMap =
      .ok [⟨"A", 3, 0x41⟩, ⟨"SW M", 4, 0x40⟩, ⟨"SW 250", 5, 0x42⟩] := by decide +kernel
  cases built : o.edits read with
  | error cause => rw [built] at succeeds; cases succeeds
  | ok pair =>
      obtain ⟨edits, notes⟩ := pair
      cases result : Edit.run edits sampleFont with
      | error cause =>
          rw [built] at succeeds
          simp [Except.toOption, result] at succeeds
      | ok f' =>
          have survive := glyph_ids_survive_revision built ofDocument_sampleDocument result
          rw [numbered] at survive
          have renamed : ["A", "SW M", "SW 250"].map corrected = ["A", "SWM", "SW250"] := by decide
          simp only [List.map_cons, List.map_nil, List.cons.injEq] at renamed
          obtain ⟨ids, again⟩ := survive
          refine ⟨edits, notes, f', rfl, ofDocument_sampleDocument, result, numbered, ?_, again⟩
          simpa [renamed] using ids

end SymbolFont
