/-
# Project files

The groups and lookups of a project are listed in a TOML document, with the names and tags
of the script.  Every structure in it is a table, or an array of its fields in their order,
in which fields at the end may be left out and surplus items are ignored.  Unknown keys are
errors.

The whole document is read before any rule is made, so that a document of the wrong shape is
reported first.
-/

import SymbolFont.Files
import SymbolFont.Layout.Project
import SymbolFont.Toml.Reader
import SymbolFont.Toml.Shape

namespace SymbolFont

open Toml (Value Entries)

/-- A lookup as a project file lists it. -/
structure LookupEntry where
  name : String
  glyphs : List String
  groups : List String
  context : String × String
  direction : Direction
  deriving DecidableEq, Repr

/-- Why there is no project. -/
inductive ProjectError where
  | unreadable (path : String) (fault : FileFault)
  /-- The file is no TOML document, or not one of the right shape. -/
  | invalid
  | rule (error : RuleError)
  deriving DecidableEq, Repr

/-- The text of an error. -/
def ProjectError.message : ProjectError → String
  | .unreadable path fault => "failed to read '" ++ path ++ "': " ++ fault.message
  | .invalid => "invalid project file"
  | .rule error => error.message

/-- The direction of this name. -/
def Direction.ofName? (name : String) : Option Direction :=
  if name = "LTR" then some .ltr else if name = "RTL" then some .rtl else none

/-- Is the value an empty array or table? -/
def isEmptyValue (v : Value) : Bool :=
  (v.items?.map List.isEmpty).or (v.entries?.map List.isEmpty) == some true

/-- A direction in a project file: its name, also as the only key of a table with nothing in
it. -/
def Direction.ofValue? (v : Value) : Option Direction :=
  match v, v.entries? with
  | .text name, _ => ofName? name
  | _, some [(name, content)] => if isEmptyValue content then ofName? name else none
  | _, _ => none

/-- The script in a project file. -/
def ScriptOptions.ofValue? (v : Value) : Option ScriptOptions :=
  let names := ["script_name", "script_tag", "language_name", "language_tag", "feature_name",
    "feature_tag"]
  let text := Toml.orDefault Value.text?
  let standard : ScriptOptions := {}
  match v.fields? names with
  | some [scriptName, scriptTag, languageName, languageTag, featureName, featureTag] => do
      some
        { scriptName := ← text standard.scriptName scriptName
          scriptTag := ← text standard.scriptTag scriptTag
          languageName := ← text standard.languageName languageName
          languageTag := ← text standard.languageTag languageTag
          featureName := ← text standard.featureName featureName
          featureTag := ← text standard.featureTag featureTag }
  | _ => none

/-- A group in a project file. -/
def GlyphGroup.ofValue? (v : Value) : Option GlyphGroup :=
  match v.fields? ["name", "start", "end"] with
  | some [some (.text name), some (.text first), some (.text last)] => some { name, first, last }
  | _ => none

/-- The two context glyphs of a lookup; more are ignored. -/
def contextOfValue? (v : Value) : Option (String × String) :=
  match v.items? with
  | some (.text first :: .text second :: _) => some (first, second)
  | _ => none

/-- A lookup in a project file. -/
def LookupEntry.ofValue? (v : Value) : Option LookupEntry :=
  let names := Toml.orDefault (Value.listOf? Value.text?) []
  match v.fields? ["name", "glyphs", "groups", "context", "direction"] with
  | some [some (.text name), glyphs, groups, some context, direction] => do
      some
        { name
          glyphs := ← names glyphs
          groups := ← names groups
          context := ← contextOfValue? context
          direction := ← Toml.orDefault Direction.ofValue? .ltr direction }
  | _ => none

/-- The rule of a lookup, which moves glyphs first and groups after them. -/
def LookupEntry.rule (entry : LookupEntry) : Except RuleError PositioningRule :=
  (PositioningRule.make entry.name
    (entry.glyphs.map .glyph ++ entry.groups.map .group) entry.context).map
      (·.withDirection entry.direction)

/-- What a project file holds. -/
structure ProjectFile where
  script : ScriptOptions
  groups : List GlyphGroup
  lookups : List LookupEntry
  deriving DecidableEq, Repr

namespace ProjectFile

/-- The content of a project file, given as the table that its document is. -/
def ofEntries? (es : Entries) : Option ProjectFile :=
  match es.fields? ["script", "group", "lookup"] with
  | some [script, groups, lookups] => do
      some
        { script := ← Toml.orDefault ScriptOptions.ofValue? {} script
          groups := ← Toml.orDefault (Value.listOf? GlyphGroup.ofValue?) [] groups
          lookups := ← Toml.orDefault (Value.listOf? LookupEntry.ofValue?) [] lookups }
  | _ => none

/-- The content of a project file with this text. -/
def ofText? (text : String) : Option ProjectFile := (Entries.ofText? text).bind ofEntries?

/-- The project that a file describes.  The first lookup without a rule is reported. -/
def project (file : ProjectFile) : Except RuleError Project :=
  (file.lookups.mapM LookupEntry.rule).map fun rules =>
    { script := file.script, groups := file.groups, rules }

end ProjectFile

namespace Project

/-- The project that a text describes. -/
def ofText (text : String) : Except ProjectError Project :=
  match ProjectFile.ofText? text with
  | none => .error .invalid
  | some file => file.project.mapError .rule

/-- The project that a file describes. -/
def load (read : ReadFile) (path : String) : Except ProjectError Project :=
  match read.text path with
  | .error fault => .error (.unreadable path fault)
  | .ok text => ofText text

end Project

end SymbolFont
