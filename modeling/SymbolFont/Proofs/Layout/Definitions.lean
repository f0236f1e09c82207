/-
# Definitions of glyphs

A project defines the sentinels and then one glyph for every entry of the character map, with
numbers that follow one another: first the entries whose names are without the marker, then
those that hold it, each in the order of the map.

Definitions come from entries and not from glyphs.  So a glyph with two characters is defined
twice, and one that is called like a sentinel as well.  Names are defined once exactly where
neither happens.
-/

import Mathlib.Data.List.Nodup
import SymbolFont.Layout.Project
import SymbolFont.Proofs.Layout.Numbering
import SymbolFont.Proofs.Text.Reader

namespace SymbolFont

/-! ## Numbers in two halves -/

/-- The halves are told apart by the marker. -/
theorem numberingOrder_eq_filter (charMap : List CharMapEntry) :
    numberingOrder charMap =
      charMap.filter (fun e => !decide (extensionMarker.toList <:+: e.name.toList)) ++
        charMap.filter fun e => decide (extensionMarker.toList <:+: e.name.toList) := by
  have marked : ∀ e : CharMapEntry,
      decide (extensionMarker.toList <:+: e.name.toList) = e.cls.isExtension := by
    intro e
    rw [CharMapEntry.cls, GlyphClass.isExtension_of, Bool.eq_iff_iff, decide_eq_true_iff,
      GlyphClass.hasMarker_iff_infix]
  rw [numberingOrder, Half.entries, Half.entries, Half.contains_base, Half.contains_extension]
  simp only [marked]

/-- Where all codes can be read, entries are numbered. -/
theorem exists_assignIds {charMap : List CharMapEntry}
    (decodes : ∀ e ∈ charMap, e.codePoint?.isSome) : ∃ ids, assignIds charMap = .ok ids := by
  cases numbered : assignIds charMap with
  | ok ids => exact ⟨ids, rfl⟩
  | error fault =>
      obtain ⟨e, found, -⟩ := numberFrom_eq_error_iff.mp numbered
      have unread := List.find?_some found
      have read := decodes e (mem_numberingOrder.mp (List.mem_of_find?_eq_some found))
      rw [Option.isNone_iff_eq_none] at unread
      rw [unread] at read
      cases read

/-- Where a code cannot be read, numbering fails for an entry with such a code. -/
theorem exists_assignIds_eq_error {charMap : List CharMapEntry}
    (unread : ∃ e ∈ charMap, e.codePoint? = none) :
    ∃ e ∈ charMap, e.codePoint? = none ∧
      assignIds charMap = .error (.invalidCodePoint e.name e.code) := by
  obtain ⟨bad, bad_mem, bad_unread⟩ := unread
  cases numbered : assignIds charMap with
  | ok ids =>
      have read := codePoint?_of_numberFrom numbered bad (mem_numberingOrder.mpr bad_mem)
      rw [bad_unread] at read
      cases read
  | error fault =>
      obtain ⟨e, found, rfl⟩ := numberFrom_eq_error_iff.mp numbered
      have e_unread := List.find?_some found
      rw [Option.isNone_iff_eq_none] at e_unread
      exact ⟨e, mem_numberingOrder.mp (List.mem_of_find?_eq_some found), e_unread, rfl⟩

/-- Mapped glyphs are numbered entry by entry from 3 on, without gaps: those without the marker in
their names first, then those with it, each in the order of the map.  Every entry has its one
definition, and all numbers fit into 32 bits.  If a code cannot be read, the first such entry
in this order is reported. -/
theorem mapped_glyphs_numbered_in_halves (charMap : List CharMapEntry)
    (few : charMap.length < 2 ^ 32 - 4) :
    let marked : CharMapEntry → Bool := fun e =>
      decide (extensionMarker.toList <:+: e.name.toList)
    let order := charMap.filter (fun e => !marked e) ++ charMap.filter marked
    ((∀ e ∈ charMap, e.codePoint?.isSome) → ∃ ids, assignIds charMap = .ok ids ∧
        ids.map (fun d => (d.name, some d.code)) = order.map (fun e => (e.name, e.codePoint?)) ∧
        (ids.map fun d => (d.name, some d.code)).Perm
          (charMap.map fun e => (e.name, e.codePoint?)) ∧
        ids.map GlyphDefinition.id = List.range' 3 charMap.length ∧
        ∀ d ∈ ids, d.id < UInt32.size) ∧
      ((∃ e ∈ charMap, e.codePoint? = none) →
        ∃ e, order.find? (fun e => e.codePoint?.isNone) = some e ∧
          assignIds charMap = .error (.invalidCodePoint e.name e.code)) := by
  intro marked order
  have order_eq : numberingOrder charMap = order := numberingOrder_eq_filter charMap
  have perm : order.Perm charMap := order_eq ▸ perm_numberingOrder charMap
  constructor
  · intro decodes
    obtain ⟨ids, numbered⟩ := exists_assignIds decodes
    obtain ⟨numbers, pairs⟩ := numberFrom_eq_ok_iff.mp numbered
    rw [order_eq] at numbers pairs
    rw [perm.length_eq] at numbers
    refine ⟨ids, numbered, pairs, pairs ▸ perm.map _, numbers, fun d mem => ?_⟩
    have numbered_within : d.id ∈ List.range' sentinelGlyphs.length charMap.length :=
      numbers ▸ List.mem_map_of_mem mem
    have sentinels : sentinelGlyphs.length = 3 := rfl
    rw [List.mem_range'_1, sentinels] at numbered_within
    have size : UInt32.size = 2 ^ 32 := rfl
    omega
  · rintro ⟨e, mem, unread⟩
    obtain ⟨first, found⟩ : ∃ first, order.find? (fun e => e.codePoint?.isNone) = some first := by
      rw [← Option.isSome_iff_exists, List.find?_isSome]
      exact ⟨e, perm.mem_iff.mpr mem, by rw [unread]; rfl⟩
    exact ⟨first, found, numberFrom_eq_error_iff.mpr ⟨first, order_eq ▸ found, rfl⟩⟩

/-- Two entries with the marker stand in the map before one without it. -/
theorem mapped_glyphs_numbered_in_halves_of_three :
    let charMap : List CharMapEntry := [⟨"xSW2", "1D810"⟩, ⟨"SWM", "0X40"⟩, ⟨"A", " 41 "⟩]
    charMap.length < 2 ^ 32 - 4 ∧ (∀ e ∈ charMap, e.codePoint?.isSome) ∧
      ∃ ids, assignIds charMap = .ok ids ∧
        ids.map (fun d => (d.name, some d.code)) =
          [("A", some 0x41), ("xSW2", some 0x1D810), ("SWM", some 0x40)] ∧
        ids.map GlyphDefinition.id = [3, 4, 5] := by
  intro charMap
  have few : charMap.length < 2 ^ 32 - 4 := by decide
  have decodes : ∀ e ∈ charMap, e.codePoint?.isSome := by decide
  obtain ⟨ids, numbered, pairs, -, numbers, -⟩ :=
    (mapped_glyphs_numbered_in_halves charMap few).1 decodes
  exact ⟨few, decodes, ids, numbered, pairs.trans (by decide), numbers⟩

/-! ## The lines of definitions -/

/-- The names that a project defines, each with its number. -/
def definitions (ids : List GlyphDefinition) : List (String × Nat) :=
  sentinelGlyphs.zipIdx ++ ids.map fun d => (d.name, d.id)

/-- What the line of a definition begins with. -/
def definitionKeyword : String := "DEF_GLYPH"

/-- Does the line define a glyph? -/
def isDefinition (line : String) : Bool := definitionKeyword.toList.isPrefixOf line.toList

/-- Does the line define the name with the number? -/
def Defines (line : String) (definition : String × Nat) : Prop :=
  ("DEF_GLYPH \"" ++ definition.1 ++ "\" ID " ++ toString definition.2 ++ " ").toList <+:
    line.toList

/-- A line whose front is at odds with the keyword defines nothing. -/
theorem isDefinition_append {front : String} (rest : String)
    (odds : Text.AtOdds definitionKeyword front) : isDefinition (front ++ rest) = false := by
  rw [isDefinition, Bool.eq_false_iff, ne_eq, List.isPrefixOf_iff_prefix, String.toList_append]
  exact odds.not_begins (List.prefix_append _ _)

theorem Defines.isDefinition {line : String} {definition : String × Nat}
    (defines : Defines line definition) : isDefinition line = true := by
  rw [SymbolFont.isDefinition, List.isPrefixOf_iff_prefix]
  refine List.IsPrefix.trans ?_ defines
  have front : definitionKeyword.toList <+: "DEF_GLYPH \"".toList := by decide
  simp only [String.toList_append, List.append_assoc]
  exact front.trans (List.prefix_append _ _)

/-- The sentinels are defined in their order. -/
theorem defines_sentinelLines (id : Nat) (names : List String) :
    List.Forall₂ Defines (sentinelLines id names) (names.zipIdx id) := by
  induction names generalizing id with
  | nil => exact .nil
  | cons name names ih =>
      refine .cons ⟨"TYPE BASE END_GLYPH\n".toList, ?_⟩ (ih (id + 1))
      simp [String.toList_append]

/-- Every glyph is defined by its line. -/
theorem defines_render (d : GlyphDefinition) : Defines (d.render ++ "\n") (d.name, d.id) := by
  refine ⟨("UNICODE " ++ toString d.code.toNat ++ " TYPE BASE END_GLYPH\n").toList, ?_⟩
  unfold GlyphDefinition.render
  simp [String.toList_append]

/-- The lines of a project that define glyphs. -/
def definitionLines (ids : List GlyphDefinition) : List String :=
  sentinelLines 0 sentinelGlyphs ++ ids.map fun d => d.render ++ "\n"

theorem defines_definitionLines (ids : List GlyphDefinition) :
    List.Forall₂ Defines (definitionLines ids) (definitions ids) := by
  refine List.rel_append (defines_sentinelLines 0 sentinelGlyphs) ?_
  rw [List.forall₂_map_left_iff, List.forall₂_map_right_iff]
  exact List.forall₂_same.mpr fun d _ => defines_render d

theorem isDefinition_script (o : ScriptOptions) (rules : List PositioningRule) :
    ∀ line ∈ o.lines rules, isDefinition line = false := by
  simp only [ScriptOptions.lines, List.forall_mem_cons, nameAndTag, String.append_assoc]
  refine ⟨isDefinition_append _ (by decide),
    isDefinition_append _ (by decide),
    isDefinition_append _ (by decide), ?_, by decide, by decide, by decide, by simp⟩
  cases rules with
  | nil => decide
  | cons rule rules =>
      simp only [List.map_cons, String.join_cons, String.append_assoc]
      exact isDefinition_append _ (by decide)

theorem isDefinition_group (g : GlyphGroup) : ∀ line ∈ g.lines, isDefinition line = false := by
  simp only [GlyphGroup.lines, List.forall_mem_cons, String.append_assoc]
  exact ⟨isDefinition_append _ (by decide),
    isDefinition_append _ (by decide), by decide, by simp⟩

theorem isDefinition_adjustLines {lead : String} (offset : Int × Int) (targets : List Target)
    (odds : Text.AtOdds definitionKeyword lead) :
    ∀ line ∈ PositioningRule.adjustLines offset lead targets, isDefinition line = false := by
  induction targets generalizing lead with
  | nil => simp [PositioningRule.adjustLines]
  | cons target targets ih =>
      simp only [PositioningRule.adjustLines, List.forall_mem_cons, String.append_assoc]
      exact ⟨isDefinition_append _ odds, ih (by decide)⟩

theorem isDefinition_rule (r : PositioningRule) : ∀ line ∈ r.lines, isDefinition line = false := by
  simp only [PositioningRule.lines, List.forall_mem_append, List.forall_mem_cons,
    String.append_assoc]
  exact ⟨⟨⟨isDefinition_append _ (by decide), by decide,
        isDefinition_append _ (by decide),
        isDefinition_append _ (by decide), by decide, by decide, by simp⟩,
      isDefinition_adjustLines r.offset r.targets (by decide)⟩,
    by decide, by decide, by simp⟩

/-- The lines of a project that define glyphs are those of the sentinels and of the font's
glyphs, whatever else the project holds. -/
theorem filter_isDefinition_lines (p : Project) (ids : List GlyphDefinition) :
    (p.lines ids).filter isDefinition = definitionLines ids := by
  have defined : (definitionLines ids).filter isDefinition = definitionLines ids := by
    have both := (defines_definitionLines ids).imp fun _ _ defines =>
      And.intro defines.isDefinition defines
    exact List.filter_eq_self.mpr ((List.forall₂_and_left _ _).mp both).1
  have front : [ "\n" ].filter isDefinition = [] := by decide
  have script : (p.script.lines p.rules).filter isDefinition = [] := by
    simpa [List.filter_eq_nil_iff] using isDefinition_script p.script p.rules
  have groups : (p.groups.flatMap GlyphGroup.lines).filter isDefinition = [] := by
    simpa [List.filter_eq_nil_iff] using fun line g _ => isDefinition_group g line
  have rules : (p.rules.flatMap PositioningRule.lines).filter isDefinition = [] := by
    simpa [List.filter_eq_nil_iff] using fun line r _ => isDefinition_rule r line
  have charMap : charMapLines.filter isDefinition = [] := by decide
  calc (p.lines ids).filter isDefinition
      = (["\n"] ++ definitionLines ids ++ p.script.lines p.rules ++
          p.groups.flatMap GlyphGroup.lines ++ p.rules.flatMap PositioningRule.lines ++
          charMapLines).filter isDefinition := by
        simp only [Project.lines, definitionLines, List.cons_append, List.nil_append]
    _ = definitionLines ids := by
        simp only [List.filter_append, front, defined, script, groups, rules, charMap,
          List.nil_append, List.append_nil]

/-! ## Names that are defined once -/

/-- Definitions have the names of entries. -/
theorem map_name_of_assignIds {charMap : List CharMapEntry} {ids : List GlyphDefinition}
    (numbered : assignIds charMap = .ok ids) :
    (ids.map GlyphDefinition.name).Perm (charMap.map CharMapEntry.name) := by
  have names : ids.map GlyphDefinition.name = (numberingOrder charMap).map CharMapEntry.name := by
    have pairs := congrArg (List.map Prod.fst) (numberFrom_eq_ok_iff.mp numbered).2
    simpa only [List.map_map, Function.comp_def] using pairs
  exact names ▸ (perm_numberingOrder charMap).map _

/-- Definitions have names of their own exactly where entries have, and none is a sentinel's. -/
theorem nodup_definitions_iff {charMap : List CharMapEntry} {ids : List GlyphDefinition}
    (numbered : assignIds charMap = .ok ids) :
    ((definitions ids).map Prod.fst).Nodup ↔
      (charMap.map CharMapEntry.name).Nodup ∧ ∀ e ∈ charMap, e.name ∉ sentinelGlyphs := by
  have perm := map_name_of_assignIds numbered
  have all : (definitions ids).map Prod.fst = sentinelGlyphs ++ ids.map GlyphDefinition.name := by
    rw [definitions, List.map_append, List.map_map]
    rfl
  have sentinels : sentinelGlyphs.Nodup := by decide
  rw [all, (perm.append_left _).nodup_iff, List.nodup_append']
  simp only [sentinels, true_and, List.disjoint_right, List.forall_mem_map]

/-- Where names are defined once, a name has one number. -/
theorem eq_of_mem_definitions {ids : List GlyphDefinition}
    (once : ((definitions ids).map Prod.fst).Nodup) {first second : String × Nat}
    (mem : first ∈ definitions ids) (mem' : second ∈ definitions ids)
    (same : first.1 = second.1) : first = second :=
  List.inj_on_of_nodup_map once mem mem' same

/-- A project defines names once, so that each of them has one number, exactly if no two entries
of the character map have the same name and none has a sentinel's.  The definitions are the
lines of the project that begin with their keyword. -/
theorem defined_once_iff_entries_distinct (p : Project) {charMap : List CharMapEntry}
    (decodes : ∀ e ∈ charMap, e.codePoint?.isSome) :
    ∃ ids, p.generate charMap = .ok (String.join (p.lines ids)) ∧ assignIds charMap = .ok ids ∧
      List.Forall₂ Defines ((p.lines ids).filter isDefinition) (definitions ids) ∧
      (((definitions ids).map Prod.fst).Nodup ↔
        (charMap.map CharMapEntry.name).Nodup ∧ ∀ e ∈ charMap, e.name ∉ sentinelGlyphs) ∧
      (((definitions ids).map Prod.fst).Nodup → ∀ name id id',
        (name, id) ∈ definitions ids → (name, id') ∈ definitions ids → id = id') := by
  obtain ⟨ids, numbered⟩ := exists_assignIds decodes
  refine ⟨ids, ?_, numbered, ?_, nodup_definitions_iff numbered, ?_⟩
  · rw [Project.generate, numbered]
    rfl
  · rw [filter_isDefinition_lines]
    exact defines_definitionLines ids
  · intro once name id id' mem mem'
    exact (Prod.mk.inj (eq_of_mem_definitions once mem mem' rfl)).2

/-- Names that stand in the map once, and are no sentinel's. -/
theorem defined_once_iff_entries_distinct_of_two :
    let charMap : List CharMapEntry := [⟨"SWM", "40"⟩, ⟨"A", "41"⟩]
    (∀ e ∈ charMap, e.codePoint?.isSome) ∧
      ∃ ids, ({} : Project).generate charMap = .ok (String.join (({} : Project).lines ids)) ∧
        assignIds charMap = .ok ids ∧ ((definitions ids).map Prod.fst).Nodup := by
  intro charMap
  have decodes : ∀ e ∈ charMap, e.codePoint?.isSome := by decide
  obtain ⟨ids, text, numbered, -, distinct, -⟩ :=
    defined_once_iff_entries_distinct ({} : Project) decodes
  exact ⟨decodes, ids, text, numbered, distinct.mpr ⟨by decide, by decide⟩⟩

/-- The glyphs of the font have names of their own, and all of its entries have known glyphs and
codes that can be read. -/
structure Font.IsWellMapped (f : Font Float) : Prop where
  glyphs : (f.glyphs.map Glyph.name).Nodup
  entries : ∀ e ∈ f.charMap, ∃ g ∈ f.glyphs, g.name = e.name
  codes : ∀ e ∈ f.charMap, e.codePoint?.isSome

/-- It is not enough that glyphs have names of their own: one with two characters is defined
twice, and so is one that is called like a sentinel. -/
theorem defined_twice_though_well_mapped :
    let shared : Font Float :=
      { charMap := [⟨"A", "41"⟩, ⟨"A", "42"⟩], glyphs := [{ name := "A" }], metrics := []
        document := { name := "ttFont" } }
    let sentinel : Font Float :=
      { charMap := [⟨"CR", "0D"⟩], glyphs := [{ name := "CR" }], metrics := []
        document := { name := "ttFont" } }
    (shared.IsWellMapped ∧ ∃ ids, assignIds shared.charMap = .ok ids ∧
        definitions ids = [("glyph0", 0), ("null", 1), ("CR", 2), ("A", 3), ("A", 4)] ∧
        ¬ ((definitions ids).map Prod.fst).Nodup) ∧
      sentinel.IsWellMapped ∧ ∃ ids, assignIds sentinel.charMap = .ok ids ∧
        definitions ids = [("glyph0", 0), ("null", 1), ("CR", 2), ("CR", 3)] ∧
        ¬ ((definitions ids).map Prod.fst).Nodup := by
  intro shared sentinel
  refine ⟨⟨⟨by decide, by decide, by decide⟩, [⟨"A", 3, 0x41⟩, ⟨"A", 4, 0x42⟩], ?_⟩,
    ⟨by decide, by decide, by decide⟩, [⟨"CR", 3, 0x0D⟩], ?_⟩
  · exact ⟨by decide +kernel, by decide, by decide⟩
  · exact ⟨by decide +kernel, by decide, by decide⟩

end SymbolFont
