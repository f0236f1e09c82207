/-
# Writing projects

A project is written section by section, by loops over glyphs, groups, rules and targets, and
every line in the fragments that it is formatted in.  The text is that of the lines of the project
all the same, so a sink that fails has the front of it, wherever that ends.  Nothing is written
unless all codes can be read.
-/

import Mathlib.Tactic.Common
import SymbolFont.Layout.Project
import SymbolFont.Proofs.Layout.Definitions
import SymbolFont.Proofs.Text.Writing

namespace SymbolFont

open Text

/-! ## The program -/

/-- Write a part of a project in fragments. -/
def print (fragments : List String) : Writing GenerateError Unit := putAll .refused fragments

/-- Write a sentinel glyph with its number. -/
def writeSentinel (glyph : String × Nat) : Writing GenerateError Unit :=
  print ["DEF_GLYPH \"", glyph.1, "\" ID ", toString glyph.2, " TYPE BASE END_GLYPH\n"]

/-- Write a glyph. -/
def GlyphDefinition.write (d : GlyphDefinition) : Writing GenerateError Unit :=
  print ["DEF_GLYPH \"", d.name, "\" ID ", toString d.id, " UNICODE ", toString d.code.toNat,
    " TYPE BASE END_GLYPH", "\n"]

/-- Write the script with its language and its feature. -/
def ScriptOptions.write (o : ScriptOptions) (rules : List PositioningRule) :
    Writing GenerateError Unit := do
  print ["DEF_SCRIPT NAME \"", o.scriptName, "\" TAG \"", o.scriptTag, "\"\n\n"]
  print ["DEF_LANGSYS NAME \"", o.languageName, "\" TAG \"", o.languageTag, "\"\n\n"]
  print ["DEF_FEATURE NAME \"", o.featureName, "\" TAG \"", o.featureTag, "\"\n"]
  print [String.join (rules.map fun rule => " LOOKUP \"" ++ rule.name ++ "\""), "\n"]
  print ["END_FEATURE\n"]
  print ["END_LANGSYS\n"]
  print ["END_SCRIPT\n"]

/-- Write a group. -/
def GlyphGroup.write (g : GlyphGroup) : Writing GenerateError Unit := do
  print ["DEF_GROUP \"", g.name, "\"\n"]
  print [" ENUM RANGE \"", g.first, "\" TO \"", g.last, "\" END_ENUM\n"]
  print ["END_GROUP\n"]

/-- Write a target. -/
def Target.write : Target → Writing GenerateError Unit
  | .glyph name => print ["GLYPH \"", name, "\""]
  | .group name => print ["GROUP \"", name, "\""]

namespace PositioningRule

/-- Write how a target is adjusted; the keyword stands before the first one only. -/
def writeAdjustment (offset : Int × Int) (target : Target × Nat) :
    Writing GenerateError Unit := do
  print [if target.2 = 0 then "ADJUST_SINGLE " else " "]
  target.1.write
  print [" BY POS DX ", toString offset.1, " DY ", toString offset.2, " END_POS\n"]

/-- Write a rule. -/
def write (r : PositioningRule) : Writing GenerateError Unit := do
  print ["DEF_LOOKUP \"", r.name, "\" PROCESS_BASE PROCESS_MARKS ALL DIRECTION ",
    r.direction.name, "\n"]
  print ["IN_CONTEXT\n"]
  [r.context.1, r.context.2].forM fun glyph => print [" RIGHT GLYPH \"", glyph, "\"\n"]
  print ["END_CONTEXT\n"]
  print ["AS_POSITION\n"]
  r.targets.zipIdx.forM (writeAdjustment r.offset)
  print ["END_ADJUST\n"]
  print ["END_POSITION\n"]

end PositioningRule

namespace Project

/-- Write a project with these glyphs, section by section. -/
def writeSections (p : Project) (glyphs : List GlyphDefinition) : Writing GenerateError Unit := do
  print ["\n"]
  sentinelGlyphs.zipIdx.forM writeSentinel
  glyphs.forM GlyphDefinition.write
  p.script.write p.rules
  p.groups.forM GlyphGroup.write
  p.rules.forM PositioningRule.write
  charMapLines.forM fun line => print [line]

/-- Write the project for a character map.  All glyphs are numbered before anything is written. -/
def write (p : Project) (charMap : List CharMapEntry) : Writing GenerateError Unit :=
  match assignIds charMap with
  | .error fault => throw fault
  | .ok glyphs => p.writeSections glyphs

end Project

/-! ## Its text -/

theorem writes_print (fragments : List String) : Writes .refused (print fragments) fragments :=
  writes_putAll _ fragments

theorem writes_sentinels (id : Nat) (names : List String) :
    Writes .refused ((names.zipIdx id).forM writeSentinel) (sentinelLines id names) := by
  induction names generalizing id with
  | nil => exact .nil
  | cons name names ih =>
      refine Writes.congr (.forM_cons (writes_print _) (ih (id + 1))) ?_
      simp [sentinelLines, String.append_assoc]

theorem GlyphDefinition.writes_render (d : GlyphDefinition) :
    Writes .refused d.write [d.render ++ "\n"] := by
  refine Writes.congr (writes_print _) ?_
  unfold render
  simp [String.append_assoc]

theorem ScriptOptions.writes_lines (o : ScriptOptions) (rules : List PositioningRule) :
    Writes .refused (o.write rules) (o.lines rules) := by
  refine Writes.congr (.seq (writes_print _) <| .seq (writes_print _) <| .seq (writes_print _) <|
    .seq (writes_print _) <| .seq (writes_print _) <| .seq (writes_print _) (writes_print _)) ?_
  simp [lines, nameAndTag, String.append_assoc]

theorem GlyphGroup.writes_lines (g : GlyphGroup) : Writes .refused g.write g.lines := by
  refine Writes.congr (.seq (writes_print _) <| .seq (writes_print _) (writes_print _)) ?_
  simp [lines, String.append_assoc]

theorem Target.writes_render (t : Target) : Writes .refused t.write [t.render] := by
  cases t <;> exact Writes.congr (writes_print _) (by simp [render, String.append_assoc])

namespace PositioningRule

theorem writes_adjustment (offset : Int × Int) (target : Target) (index : Nat) :
    Writes .refused (writeAdjustment offset (target, index))
      (adjustLines offset (if index = 0 then "ADJUST_SINGLE " else " ") [target]) := by
  refine Writes.congr
    (.seq (writes_print _) <| .seq target.writes_render (writes_print _)) ?_
  simp [adjustLines, String.append_assoc]

theorem writes_adjustLines (offset : Int × Int) (targets : List Target) (index : Nat) :
    Writes .refused ((targets.zipIdx index).forM (writeAdjustment offset))
      (adjustLines offset (if index = 0 then "ADJUST_SINGLE " else " ") targets) := by
  induction targets generalizing index with
  | nil => exact .nil
  | cons target targets ih =>
      -- Behind the first target, no index is zero any more.
      have rest := ih (index + 1)
      rw [if_neg (Nat.succ_ne_zero index)] at rest
      refine Writes.congr (.forM_cons (writes_adjustment offset target index) rest) ?_
      simp [adjustLines]

theorem writes_lines (r : PositioningRule) : Writes .refused r.write r.lines := by
  have context := Writes.forM (fun glyph => writes_print [" RIGHT GLYPH \"", glyph, "\"\n"])
    [r.context.1, r.context.2]
  have targets := writes_adjustLines r.offset r.targets 0
  refine Writes.congr (.seq (writes_print _) <| .seq (writes_print _) <| .seq context <|
    .seq (writes_print _) <| .seq (writes_print _) <| .seq targets <|
    .seq (writes_print _) (writes_print _)) ?_
  simp [lines, String.append_assoc]

end PositioningRule

namespace Project

/-- Written section by section, a project has the text of its lines. -/
theorem writes_lines (p : Project) (glyphs : List GlyphDefinition) :
    Writes .refused (p.writeSections glyphs) (p.lines glyphs) := by
  have sentinels := writes_sentinels 0 sentinelGlyphs
  have defined := Writes.forM GlyphDefinition.writes_render glyphs
  have script := p.script.writes_lines p.rules
  have groups := Writes.forM GlyphGroup.writes_lines p.groups
  have rules := Writes.forM PositioningRule.writes_lines p.rules
  have maps := Writes.forM (fun line => writes_print [line]) charMapLines
  refine Writes.congr (.seq (writes_print _) <| .seq sentinels <| .seq defined <| .seq script <|
    .seq groups <| .seq rules maps) ?_
  simp [lines, ← List.map_eq_flatMap]

/-! ## Sinks that fail -/

/-- A project is generated to a sink that fails when its room is used up.  If a code cannot be
read, the sink has nothing and the entry is reported.  Otherwise it has the front of the text, and
all is well exactly if it has all of it. -/
theorem generated_up_to_room (p : Project) (charMap : List CharMapEntry) (room : Nat) :
    ((∃ e ∈ charMap, e.codePoint? = none) →
      ∃ e ∈ charMap, e.codePoint? = none ∧
        p.generate charMap = .error (.invalidCodePoint e.name e.code) ∧
        p.deliver charMap room = (⟨[], some room⟩, some (.invalidCodePoint e.name e.code)) ∧
        outcome (p.write charMap) { room } =
          (.error (.invalidCodePoint e.name e.code), { taken := [], room })) ∧
    ((∀ e ∈ charMap, e.codePoint?.isSome) →
      ∃ text, p.generate charMap = .ok text ∧
        let complete := (bytesOf text).length ≤ room
        let taken := (bytesOf text).take room
        (p.deliver charMap room).1.taken = taken ∧
        (p.deliver charMap room).2 = (if complete then none else some .refused) ∧
        outcome (p.write charMap) { room } =
          (if complete then .ok () else .error .refused,
            { taken, room := room - (bytesOf text).length })) := by
  constructor
  · intro unread
    obtain ⟨e, mem, e_unread, failed⟩ := exists_assignIds_eq_error unread
    refine ⟨e, mem, e_unread, ?_, ?_, ?_⟩
    · rw [generate, failed]
      rfl
    · rw [deliver, failed]
    · rw [write, failed]
      rfl
  · intro decodes
    obtain ⟨glyphs, numbered⟩ := exists_assignIds decodes
    refine ⟨String.join (p.lines glyphs), by rw [generate, numbered]; rfl, ?_, ?_, ?_⟩
    · rw [deliver, numbered]
      exact taken_deliverText room (p.lines glyphs)
    · rw [deliver, numbered]
      simp only [isComplete_deliverText]
    · rw [write, numbered]
      exact (p.writes_lines glyphs).outcome room

/-- A project that is cut in the first line of its glyphs, and one with a code that cannot be
read. -/
theorem generated_up_to_room_of_cut :
    let p : Project := {}
    (∀ e ∈ [(⟨"A", "41"⟩ : CharMapEntry)], e.codePoint?.isSome) ∧
      (p.deliver [⟨"A", "41"⟩] 14).1.taken = bytesOf "\nDEF_GLYPH \"gl" ∧
      (p.deliver [⟨"A", "41"⟩] 14).2 = some .refused ∧
      (∃ e ∈ [(⟨"A", "41"⟩ : CharMapEntry), ⟨"B", "4x"⟩], e.codePoint? = none) ∧
      p.deliver [⟨"A", "41"⟩, ⟨"B", "4x"⟩] 14 =
        (⟨[], some 14⟩, some (.invalidCodePoint "B" "4x")) := by
  intro p
  have decodes : ∀ e ∈ [(⟨"A", "41"⟩ : CharMapEntry)], e.codePoint?.isSome := by decide
  have unread : ∃ e ∈ [(⟨"A", "41"⟩ : CharMapEntry), ⟨"B", "4x"⟩], e.codePoint? = none := by
    decide
  obtain ⟨text, generated, taken, fault, -⟩ := (generated_up_to_room p _ 14).2 decodes
  have numbered : assignIds [⟨"A", "41"⟩] = .ok [⟨"A", 3, 65⟩] := by decide
  have text_eq : String.join (p.lines [⟨"A", 3, 65⟩]) = text := by
    rw [generate, numbered] at generated
    exact Except.ok.inj generated
  have long : ¬ (bytesOf text).length ≤ 14 := by rw [← text_eq]; decide +kernel
  obtain ⟨e, mem, e_unread, -, delivered, -⟩ := (generated_up_to_room p _ 14).1 unread
  obtain rfl : e = ⟨"B", "4x"⟩ := by
    have second : ∀ e ∈ [(⟨"A", "41"⟩ : CharMapEntry), ⟨"B", "4x"⟩],
        e.codePoint? = none → e = ⟨"B", "4x"⟩ := by decide
    exact second e mem e_unread
  refine ⟨decodes, taken.trans ?_, fault.trans (if_neg long), unread, delivered⟩
  rw [← text_eq]
  decide +kernel

end Project

end SymbolFont
