/-
# Projects read back

The text of a project tells what it was made of: the glyphs with their numbers, the script, the
lookups that the feature refers to, the groups and the rules.  Nothing in the text is escaped,
so this holds as long as no name has a quotation mark; line feeds and keywords within names do
no harm.

There is a reader for each kind of entry.  It takes the pieces in the order in which they are
written, and leaves what stands behind the entry.
-/

import Mathlib.Tactic.Common
import SymbolFont.Proofs.Layout.Definitions
import SymbolFont.Proofs.Text.Reader

namespace SymbolFont

open Text Text.Reader

/-- What the text of a project lists. -/
structure Listing where
  glyphs : List GlyphDefinition
  script : ScriptOptions
  /-- The lookups that the feature refers to. -/
  references : List String
  groups : List GlyphGroup
  rules : List PositioningRule
  deriving DecidableEq, Repr

/-! ## Glyphs and groups -/

/-- Read a glyph behind the keyword. -/
def readDefinition : Text.Reader GlyphDefinition := do
  let name ← quoted "\" ID "
  let id ← natural " UNICODE "
  let code ← natural " TYPE BASE END_GLYPH"
  literal "\n"
  return { name, id, code := UInt32.ofNat code }

theorem run_readDefinition {d : GlyphDefinition} (plain : IsUnquoted d.name) (rest : List Char) :
    (do literal "DEF_GLYPH \""; readDefinition : Text.Reader _).run
      ((d.render ++ "\n").toList ++ rest) = some (d, rest) := by
  unfold GlyphDefinition.render readDefinition
  simp (disch := first | assumption | decide) only [String.toList_append, List.append_assoc,
    StateT.run_bind, run_literal, run_quoted, run_natural, Option.bind_eq_bind, Option.bind_some,
    StateT.run_pure, UInt32.ofNat_toNat]
  rfl

/-- The names of a group have no quotation marks. -/
structure GlyphGroup.IsUnquoted (g : GlyphGroup) : Prop where
  name : Text.IsUnquoted g.name
  first : Text.IsUnquoted g.first
  last : Text.IsUnquoted g.last

/-- Read a group behind the keyword. -/
def readGroup : Text.Reader GlyphGroup := do
  let name ← quoted "\"\n"
  literal " ENUM RANGE \""
  let first ← quoted "\" TO \""
  let last ← quoted "\" END_ENUM\n"
  literal "END_GROUP\n"
  return { name, first, last }

theorem run_readGroup {g : GlyphGroup} (plain : g.IsUnquoted) (rest : List Char) :
    (do literal "DEF_GROUP \""; readGroup : Text.Reader _).run
      (g.lines.flatMap String.toList ++ rest) = some (g, rest) := by
  obtain ⟨name, first, last⟩ := plain
  unfold GlyphGroup.lines readGroup
  simp (disch := first | assumption | decide) only [List.flatMap_cons, List.flatMap_nil,
    List.append_nil, String.toList_append, List.append_assoc, StateT.run_bind, run_literal,
    run_quoted, Option.bind_eq_bind, Option.bind_some, StateT.run_pure]
  rfl

/-! ## Rules -/

/-- The name of a target. -/
def Target.name : Target → String
  | .glyph name | .group name => name

/-- The names of a rule have no quotation marks. -/
structure PositioningRule.IsUnquoted (r : PositioningRule) : Prop where
  name : Text.IsUnquoted r.name
  targets : ∀ t ∈ r.targets, Text.IsUnquoted t.name
  first : Text.IsUnquoted r.context.1
  second : Text.IsUnquoted r.context.2

/-- The keywords of targets. -/
def targetKinds : List (String × (String → Target)) :=
  [("GLYPH \"", .glyph), ("GROUP \"", .group)]

/-- Read a target. -/
def readTarget : Text.Reader Target := do
  let target ← oneOf targetKinds
  return target (← quoted "\"")

theorem run_readTarget {t : Target} (plain : Text.IsUnquoted t.name) (rest : List Char) :
    readTarget.run (t.render.toList ++ rest) = some (t, rest) := by
  have apart : targetKinds.Pairwise fun a b => AtOdds a.1 b.1 := by decide
  have read : ∀ {keyword name : String} {target : String → Target}, Text.IsUnquoted name →
      (keyword, target) ∈ targetKinds →
        readTarget.run ((keyword ++ name ++ "\"").toList ++ rest) = some (target name, rest) := by
    intro keyword name target plain mem
    unfold readTarget
    simp (disch := first | assumption | decide) only [String.toList_append, List.append_assoc,
      StateT.run_bind, run_oneOf mem apart, run_quoted, Option.bind_eq_bind, Option.bind_some,
      StateT.run_pure]
    rfl
  cases t with
  | glyph name => exact read plain List.mem_cons_self
  | group name => exact read plain (List.mem_cons_of_mem _ List.mem_cons_self)

/-- Read a direction. -/
def readDirection : Text.Reader Direction :=
  oneOf ([Direction.ltr, .rtl].map fun direction => (direction.name, direction))

theorem run_readDirection (direction : Direction) (rest : List Char) :
    readDirection.run (direction.name.toList ++ rest) = some (direction, rest) :=
  run_oneOf (by cases direction <;> decide) (by decide) rest

/-- What adjusts a target, behind what leads the line. -/
def adjustment (offset : Int × Int) (t : Target) : String :=
  t.render ++ " BY POS DX " ++ toString offset.1 ++ " DY " ++ toString offset.2 ++ " END_POS\n"

theorem adjustLines_cons (offset : Int × Int) (lead : String) (t : Target) (ts : List Target) :
    PositioningRule.adjustLines offset lead (t :: ts) =
      (lead ++ adjustment offset t) :: ts.map fun t => " " ++ adjustment offset t := by
  induction ts generalizing lead t with
  | nil => simp only [PositioningRule.adjustLines, adjustment, String.append_assoc, List.map_nil]
  | cons u us ih =>
      rw [PositioningRule.adjustLines, ih " " u]
      simp only [adjustment, String.append_assoc, List.map_cons]

/-- Read how far a target is moved. -/
def readAdjustment : Text.Reader (Target × Int × Int) := do
  let target ← readTarget
  literal " BY POS DX "
  let dx ← integer " DY "
  let dy ← integer " END_POS\n"
  return (target, dx, dy)

theorem run_readAdjustment {t : Target} (plain : Text.IsUnquoted t.name) (offset : Int × Int)
    (rest : List Char) :
    readAdjustment.run ((adjustment offset t).toList ++ rest) = some ((t, offset), rest) := by
  unfold adjustment readAdjustment
  simp (disch := first | assumption | decide) only [String.toList_append, List.append_assoc,
    StateT.run_bind, run_literal, run_readTarget, run_integer, Option.bind_eq_bind,
    Option.bind_some, StateT.run_pure]
  rfl

/-- Read the targets of a rule and by how much they are moved. -/
def readPosition : Text.Reader (List Target × Int × Int) := do
  literal "AS_POSITION\n"
  literal "ADJUST_SINGLE "
  let (target, offset) ← readAdjustment
  let others ← items " " readAdjustment
  literal "END_ADJUST\n"
  literal "END_POSITION\n"
  return (target :: others.map Prod.fst, offset)

/-- The lines of a rule that move its targets. -/
def positionLines (offset : Int × Int) (targets : List Target) : List String :=
  "AS_POSITION\n" :: PositioningRule.adjustLines offset "ADJUST_SINGLE " targets ++
    ["END_ADJUST\n", "END_POSITION\n"]

theorem run_readPosition {targets : List Target} (plain : ∀ t ∈ targets, Text.IsUnquoted t.name)
    (nonempty : targets ≠ []) (offset : Int × Int) (rest : List Char) :
    readPosition.run ((positionLines offset targets).flatMap String.toList ++ rest) =
      some ((targets, offset), rest) := by
  obtain ⟨t, ts, rfl⟩ := List.exists_cons_of_ne_nil nonempty
  obtain ⟨target_plain, others_plain⟩ := List.forall_mem_cons.mp plain
  have target_read := run_readAdjustment target_plain offset
  -- The first adjustment has a keyword of its own; the others are a repetition.
  have others_read : ∀ behind : List Char, (items " " readAdjustment).run
      ((ts.flatMap fun t => " ".toList ++ (adjustment offset t).toList) ++
        ("END_ADJUST\n".toList ++ behind)) =
        some (ts.map fun t => (t, offset), "END_ADJUST\n".toList ++ behind) := by
    intro behind
    have stops : AtOdds " " "END_ADJUST\n" := by decide
    refine run_items (by decide) (stops.not_begins (List.prefix_append _ _)) fun t mem behind => ?_
    rw [List.append_assoc, StateT.run_bind, run_literal]
    exact run_readAdjustment (others_plain t mem) offset behind
  unfold positionLines readPosition
  simp only [adjustLines_cons, List.flatMap_append, List.flatMap_cons, List.flatMap_nil,
    List.flatMap_map, List.append_nil, String.toList_append, List.append_assoc, StateT.run_bind,
    run_literal, target_read, others_read, Option.bind_eq_bind, Option.bind_some,
    StateT.run_pure, List.map_map, Function.comp_def, List.map_id']
  rfl

/-- Read the two glyphs that a rule wants behind its targets. -/
def readContext : Text.Reader (String × String) := do
  literal "IN_CONTEXT\n"
  literal " RIGHT GLYPH \""
  let first ← quoted "\"\n"
  literal " RIGHT GLYPH \""
  let second ← quoted "\"\n"
  literal "END_CONTEXT\n"
  return (first, second)

/-- The lines of a rule that tell its context. -/
def contextLines (context : String × String) : List String :=
  [ "IN_CONTEXT\n",
    " RIGHT GLYPH \"" ++ context.1 ++ "\"\n",
    " RIGHT GLYPH \"" ++ context.2 ++ "\"\n",
    "END_CONTEXT\n" ]

theorem run_readContext {context : String × String} (first : Text.IsUnquoted context.1)
    (second : Text.IsUnquoted context.2) (rest : List Char) :
    readContext.run ((contextLines context).flatMap String.toList ++ rest) =
      some (context, rest) := by
  unfold contextLines readContext
  simp (disch := first | assumption | decide) only [List.flatMap_cons, List.flatMap_nil,
    List.append_nil, String.toList_append, List.append_assoc, StateT.run_bind, run_literal,
    run_quoted, Option.bind_eq_bind, Option.bind_some, StateT.run_pure]
  rfl

/-- Read a rule behind the keyword. -/
def readRule : Text.Reader PositioningRule := do
  let name ← quoted "\" PROCESS_BASE PROCESS_MARKS ALL DIRECTION "
  let direction ← readDirection
  literal "\n"
  let context ← readContext
  let (targets, offset) ← readPosition
  return { name, direction, targets, context, offset }

theorem run_readRule {r : PositioningRule} (plain : r.IsUnquoted) (moves : r.targets ≠ [])
    (rest : List Char) :
    (do literal "DEF_LOOKUP \""; readRule : Text.Reader _).run
      (r.lines.flatMap String.toList ++ rest) = some (r, rest) := by
  obtain ⟨name, targets, first, second⟩ := plain
  have parts : r.lines = ("DEF_LOOKUP \"" ++ r.name ++
      "\" PROCESS_BASE PROCESS_MARKS ALL DIRECTION " ++ r.direction.name ++ "\n") ::
        (contextLines r.context ++ positionLines r.offset r.targets) := rfl
  rw [parts]
  unfold readRule
  simp (disch := first | assumption | decide) only [List.flatMap_append, List.flatMap_cons,
    String.toList_append, List.append_assoc, StateT.run_bind, run_literal, run_quoted,
    run_readDirection, run_readContext, run_readPosition, Option.bind_eq_bind, Option.bind_some,
    StateT.run_pure]
  rfl

/-! ## The script -/

/-- The names and tags of a script have no quotation marks. -/
structure ScriptOptions.IsUnquoted (o : ScriptOptions) : Prop where
  scriptName : Text.IsUnquoted o.scriptName
  scriptTag : Text.IsUnquoted o.scriptTag
  languageName : Text.IsUnquoted o.languageName
  languageTag : Text.IsUnquoted o.languageTag
  featureName : Text.IsUnquoted o.featureName
  featureTag : Text.IsUnquoted o.featureTag

/-- Read a name and a tag. -/
def readNameAndTag (keyword : String) : Text.Reader (String × String) := do
  literal keyword
  literal " NAME \""
  let name ← quoted "\" TAG \""
  let tag ← quoted "\"\n"
  return (name, tag)

theorem run_readNameAndTag (keyword : String) {name tag : String}
    (name_plain : Text.IsUnquoted name) (tag_plain : Text.IsUnquoted tag) (rest : List Char) :
    (readNameAndTag keyword).run ((nameAndTag keyword name tag).toList ++ rest) =
      some ((name, tag), rest) := by
  unfold nameAndTag readNameAndTag
  simp (disch := first | assumption | decide) only [String.toList_append, List.append_assoc,
    StateT.run_bind, run_literal, run_quoted, Option.bind_eq_bind, Option.bind_some,
    StateT.run_pure]
  rfl

/-- Read the name and tag of the feature, and the lookups that it refers to. -/
def readFeature : Text.Reader ((String × String) × List String) := do
  let feature ← readNameAndTag "DEF_FEATURE"
  let references ← items " LOOKUP \"" (quoted "\"")
  literal "\n"
  literal "END_FEATURE\n"
  return (feature, references)

/-- The lines of the feature. -/
def featureLines (name tag : String) (rules : List PositioningRule) : List String :=
  [ nameAndTag "DEF_FEATURE" name tag,
    String.join (rules.map fun rule => " LOOKUP \"" ++ rule.name ++ "\"") ++ "\n",
    "END_FEATURE\n" ]

theorem run_readFeature {name tag : String} {rules : List PositioningRule}
    (name_plain : Text.IsUnquoted name) (tag_plain : Text.IsUnquoted tag)
    (rules_plain : ∀ r ∈ rules, r.IsUnquoted) (rest : List Char) :
    readFeature.run ((featureLines name tag rules).flatMap String.toList ++ rest) =
      some (((name, tag), rules.map PositioningRule.name), rest) := by
  have references_read : ∀ behind : List Char, (items " LOOKUP \"" (quoted "\"")).run
      ((rules.flatMap fun r => " LOOKUP \"".toList ++ (r.name.toList ++ "\"".toList)) ++
        ("\n".toList ++ behind)) =
        some (rules.map PositioningRule.name, "\n".toList ++ behind) := by
    intro behind
    have stops : AtOdds " LOOKUP \"" "\n" := by decide
    refine run_items (by decide) (stops.not_begins (List.prefix_append _ _)) fun r mem behind => ?_
    rw [List.append_assoc, List.append_assoc, StateT.run_bind, run_literal]
    exact run_quoted (rules_plain r mem).name (by decide) behind
  unfold featureLines readFeature
  simp (disch := first | assumption | decide) only [List.flatMap_cons, List.flatMap_nil,
    List.append_nil, String.toList_append, String.toList_join, List.flatMap_map,
    List.append_assoc, StateT.run_bind, run_literal, run_readNameAndTag, references_read,
    Option.bind_eq_bind, Option.bind_some, StateT.run_pure]
  rfl

/-- Read the script, with the lookups that the feature refers to. -/
def readScript : Text.Reader (ScriptOptions × List String) := do
  let (scriptName, scriptTag) ← readNameAndTag "DEF_SCRIPT"
  literal "\n"
  let (languageName, languageTag) ← readNameAndTag "DEF_LANGSYS"
  literal "\n"
  let ((featureName, featureTag), references) ← readFeature
  literal "END_LANGSYS\n"
  literal "END_SCRIPT\n"
  return ({ scriptName, scriptTag, languageName, languageTag, featureName, featureTag },
    references)

theorem run_readScript {o : ScriptOptions} {rules : List PositioningRule} (plain : o.IsUnquoted)
    (rules_plain : ∀ r ∈ rules, r.IsUnquoted) (rest : List Char) :
    readScript.run ((o.lines rules).flatMap String.toList ++ rest) =
      some ((o, rules.map PositioningRule.name), rest) := by
  obtain ⟨scriptName, scriptTag, languageName, languageTag, featureName, featureTag⟩ := plain
  have parts : o.lines rules =
      [nameAndTag "DEF_SCRIPT" o.scriptName o.scriptTag ++ "\n",
        nameAndTag "DEF_LANGSYS" o.languageName o.languageTag ++ "\n"] ++
      (featureLines o.featureName o.featureTag rules ++ ["END_LANGSYS\n", "END_SCRIPT\n"]) := rfl
  rw [parts]
  unfold readScript
  simp (disch := first | assumption | decide) only [List.flatMap_append, List.flatMap_cons,
    List.flatMap_nil, List.append_nil, String.toList_append, List.append_assoc, StateT.run_bind,
    run_literal, run_readNameAndTag, run_readFeature, Option.bind_eq_bind, Option.bind_some,
    StateT.run_pure]
  rfl

/-! ## The whole project -/

/-- No name in a project has a quotation mark. -/
structure Project.IsUnquoted (p : Project) : Prop where
  script : p.script.IsUnquoted
  groups : ∀ g ∈ p.groups, g.IsUnquoted
  rules : ∀ r ∈ p.rules, r.IsUnquoted

/-- What stands in front of the glyphs of a font in every project. -/
def projectFront : String := String.join ("\n" :: sentinelLines 0 sentinelGlyphs)

/-- What ends every project. -/
def projectBack : String := String.join charMapLines

/-- Read a project. -/
def readListing : Text.Reader Listing := do
  literal projectFront
  let glyphs ← items "DEF_GLYPH \"" readDefinition
  let (script, references) ← readScript
  let groups ← items "DEF_GROUP \"" readGroup
  let rules ← items "DEF_LOOKUP \"" readRule
  literal projectBack
  return { glyphs, script, references, groups, rules }

/-- What a text lists that is a project from end to end. -/
def Listing.ofText? (text : String) : Option Listing :=
  match readListing.run text.toList with
  | some (listing, []) => some listing
  | _ => none

theorem ScriptOptions.lines_begin (o : ScriptOptions) (rules : List PositioningRule) :
    "DEF_SCRIPT".toList <+: (o.lines rules).flatMap String.toList := by
  unfold ScriptOptions.lines nameAndTag
  simp only [List.flatMap_cons, String.toList_append, List.append_assoc]
  exact List.prefix_append _ _

theorem PositioningRule.lines_begin (r : PositioningRule) :
    "DEF_LOOKUP \"".toList <+: r.lines.flatMap String.toList := by
  unfold PositioningRule.lines
  simp only [List.flatMap_append, List.flatMap_cons, String.toList_append, List.append_assoc]
  exact List.prefix_append _ _

/-- No group stands behind the groups. -/
theorem not_group_behind_groups (rules : List PositioningRule) :
    ¬ "DEF_GROUP \"".toList <+:
      (rules.flatMap fun r => r.lines.flatMap String.toList) ++ projectBack.toList := by
  cases rules with
  | nil =>
      have odds : AtOdds "DEF_GROUP \"" projectBack := by decide
      exact odds.not_begins List.prefix_rfl
  | cons r rules =>
      have odds : AtOdds "DEF_GROUP \"" "DEF_LOOKUP \"" := by decide
      rw [List.flatMap_cons, List.append_assoc]
      exact odds.not_begins (r.lines_begin.trans (List.prefix_append _ _))

/-- The text of a project lists what the project is made of. -/
theorem Listing.ofText?_lines {p : Project} {ids : List GlyphDefinition}
    (glyphs_plain : ∀ d ∈ ids, Text.IsUnquoted d.name) (plain : p.IsUnquoted)
    (moves : ∀ r ∈ p.rules, r.targets ≠ []) :
    Listing.ofText? (String.join (p.lines ids)) =
      some ⟨ids, p.script, p.rules.map PositioningRule.name, p.groups, p.rules⟩ := by
  have parts : (String.join (p.lines ids)).toList = projectFront.toList ++
      ((ids.flatMap fun d => (d.render ++ "\n").toList) ++
        ((p.script.lines p.rules).flatMap String.toList ++
          ((p.groups.flatMap fun g => g.lines.flatMap String.toList) ++
            ((p.rules.flatMap fun r => r.lines.flatMap String.toList) ++
              projectBack.toList)))) := by
    simp only [Project.lines, projectFront, projectBack, String.toList_join, List.flatMap_append,
      List.flatMap_cons, List.flatMap_map, List.flatMap_assoc, List.append_assoc,
      List.cons_append]
  have glyphs_read : ∀ behind, (items "DEF_GLYPH \"" readDefinition).run
      ((ids.flatMap fun d => (d.render ++ "\n").toList) ++
        ((p.script.lines p.rules).flatMap String.toList ++ behind)) =
          some (ids.map id, (p.script.lines p.rules).flatMap String.toList ++ behind) := by
    intro behind
    have odds : AtOdds "DEF_GLYPH \"" "DEF_SCRIPT" := by decide
    have stops := odds.not_begins
      ((p.script.lines_begin p.rules).trans (List.prefix_append _ behind))
    exact run_items (by decide) stops fun d mem => run_readDefinition (glyphs_plain d mem)
  have script_read := run_readScript plain.script plain.rules
  have groups_read : (items "DEF_GROUP \"" readGroup).run
      ((p.groups.flatMap fun g => g.lines.flatMap String.toList) ++
        ((p.rules.flatMap fun r => r.lines.flatMap String.toList) ++ projectBack.toList)) =
          some (p.groups.map id,
            (p.rules.flatMap fun r => r.lines.flatMap String.toList) ++ projectBack.toList) :=
    run_items (by decide) (not_group_behind_groups p.rules)
      fun g mem => run_readGroup (plain.groups g mem)
  have rules_read : (items "DEF_LOOKUP \"" readRule).run
      ((p.rules.flatMap fun r => r.lines.flatMap String.toList) ++ projectBack.toList) =
        some (p.rules.map id, projectBack.toList) := by
    have odds : AtOdds "DEF_LOOKUP \"" projectBack := by decide
    exact run_items (by decide) (odds.not_begins List.prefix_rfl)
      fun r mem => run_readRule (plain.rules r mem) (moves r mem)
  have back_read : (literal projectBack).run projectBack.toList = some ((), []) :=
    run_literal_eq_some_iff.mpr (List.append_nil _).symm
  have read : readListing.run (String.join (p.lines ids)).toList =
      some (⟨ids, p.script, p.rules.map PositioningRule.name, p.groups, p.rules⟩, []) := by
    rw [parts]
    unfold readListing
    simp only [StateT.run_bind, run_literal, glyphs_read, script_read, groups_read, rules_read,
      back_read, Option.bind_eq_bind, Option.bind_some, StateT.run_pure, List.map_id]
    rfl
  rw [Listing.ofText?, read]

/-! ## Texts tell projects apart -/

/-- A rule that has been made, and may have been given another direction. -/
def PositioningRule.IsMade (r : PositioningRule) : Prop :=
  ∃ name targets context direction,
    (PositioningRule.make name targets context).map (·.withDirection direction) = .ok r

/-- Rules move something. -/
theorem PositioningRule.IsMade.targets_ne_nil {r : PositioningRule} (made : r.IsMade) :
    r.targets ≠ [] := by
  obtain ⟨name, targets, context, direction, made⟩ := made
  unfold PositioningRule.make at made
  split at made
  case isTrue => cases made
  case isFalse nonempty =>
    split at made
    case h_1 =>
      cases made
      simpa [PositioningRule.withDirection] using nonempty
    all_goals cases made

/-- A project and a character map whose text can be read back: codes can be read, rules have been
made, and no name has a quotation mark. -/
structure Project.IsLegible (p : Project) (charMap : List CharMapEntry) : Prop where
  codes : ∀ e ∈ charMap, e.codePoint?.isSome
  names : ∀ e ∈ charMap, Text.IsUnquoted e.name
  project : p.IsUnquoted
  made : ∀ r ∈ p.rules, r.IsMade

/-- A legible project has a text, which lists what it is made of. -/
theorem Project.IsLegible.exists_text {p : Project} {charMap : List CharMapEntry}
    (legible : p.IsLegible charMap) :
    ∃ ids text, assignIds charMap = .ok ids ∧ p.generate charMap = .ok text ∧
      Listing.ofText? text =
        some ⟨ids, p.script, p.rules.map PositioningRule.name, p.groups, p.rules⟩ := by
  obtain ⟨ids, numbered⟩ := exists_assignIds legible.codes
  refine ⟨ids, String.join (p.lines ids), numbered, ?_, ?_⟩
  · rw [Project.generate, numbered]
    rfl
  · refine Listing.ofText?_lines (fun d mem => ?_) legible.project
      fun r mem => (legible.made r mem).targets_ne_nil
    have named : d.name ∈ charMap.map CharMapEntry.name :=
      (map_name_of_assignIds numbered).mem_iff.mp (List.mem_map_of_mem mem)
    obtain ⟨e, entry_mem, same⟩ := List.mem_map.mp named
    exact same ▸ legible.names e entry_mem

/-- If two texts are the same, so are the glyphs with their numbers and characters, the scripts,
the groups and the rules.  The text lists all of them, and the lookups that the feature refers
to are the rules in their order. -/
theorem same_project_of_same_text {p q : Project} {charMap charMap' : List CharMapEntry}
    (legible : p.IsLegible charMap) (legible' : q.IsLegible charMap')
    (same : p.generate charMap = q.generate charMap') :
    ∃ ids text, assignIds charMap = .ok ids ∧ assignIds charMap' = .ok ids ∧
      p.script = q.script ∧ p.groups = q.groups ∧ p.rules = q.rules ∧
      p.generate charMap = .ok text ∧
      Listing.ofText? text =
        some ⟨ids, p.script, p.rules.map PositioningRule.name, p.groups, p.rules⟩ := by
  obtain ⟨ids, text, numbered, written, read⟩ := legible.exists_text
  obtain ⟨ids', text', numbered', written', read'⟩ := legible'.exists_text
  have texts : text = text' := Except.ok.inj ((written.symm.trans same).trans written')
  rw [← texts, read] at read'
  obtain ⟨rfl, script, -, groups, rules⟩ := Listing.mk.inj (Option.some.inj read')
  exact ⟨ids, text, numbered, numbered', script, groups, rules, written, read⟩

/-- Two ways to write a code, and a group whose name looks like the end of it. -/
theorem same_project_of_same_text_of_codes :
    let charMap : List CharMapEntry := [⟨"SWM", "40"⟩, ⟨"A", "41"⟩]
    let charMap' : List CharMapEntry := [⟨"SWM", "40"⟩, ⟨"A", "0x41"⟩]
    let p : Project :=
      { groups := [⟨"g\nEND_GROUP", "A", "SWM"⟩]
        rules := [⟨"p1", .rtl, [.group "g", .glyph "A"], ("SW503", "SW520"), (-247, 230)⟩] }
    p.IsLegible charMap ∧ p.IsLegible charMap' ∧ p.generate charMap = p.generate charMap' ∧
      ∃ ids, assignIds charMap = .ok ids ∧ assignIds charMap' = .ok ids := by
  intro charMap charMap' p
  have script : p.script.IsUnquoted :=
    ⟨by decide, by decide, by decide, by decide, by decide, by decide⟩
  have groups : ∀ g ∈ p.groups, g.IsUnquoted :=
    List.forall_mem_singleton.mpr ⟨by decide, by decide, by decide⟩
  have rules : ∀ r ∈ p.rules, r.IsUnquoted :=
    List.forall_mem_singleton.mpr ⟨by decide, by decide, by decide, by decide⟩
  have made : ∀ r ∈ p.rules, r.IsMade :=
    List.forall_mem_singleton.mpr
      ⟨"p1", [.group "g", .glyph "A"], ("SW503", "SW520"), .rtl, by decide +kernel⟩
  have project : p.IsUnquoted := ⟨script, groups, rules⟩
  have legible : p.IsLegible charMap := ⟨by decide, by decide, project, made⟩
  have legible' : p.IsLegible charMap' := ⟨by decide, by decide, project, made⟩
  have same : p.generate charMap = p.generate charMap' := by
    have codes : assignIds charMap = assignIds charMap' := by decide +kernel
    rw [Project.generate, Project.generate, codes]
  obtain ⟨ids, -, numbered, numbered', -⟩ := same_project_of_same_text legible legible' same
  exact ⟨legible, legible', same, ids, numbered, numbered'⟩

end SymbolFont
