/-
# Script, language and feature

The lookups of a project belong to one feature of one language system of one script.
-/

import SymbolFont.Layout.Rule

namespace SymbolFont

/-- The names and tags that the lookups are filed under. -/
structure ScriptOptions where
  scriptName : String := "New Script"
  scriptTag : String := "dflt"
  languageName : String := "Default"
  languageTag : String := "dflt"
  featureName : String := "Mark Positioning"
  featureTag : String := "mark"
  deriving DecidableEq, Repr

/-- A name and a tag. -/
def nameAndTag (keyword name tag : String) : String :=
  keyword ++ " NAME \"" ++ name ++ "\" TAG \"" ++ tag ++ "\"\n"

/-- The lines of the script in a project, with the lookups that the feature uses. -/
def ScriptOptions.lines (o : ScriptOptions) (rules : List PositioningRule) : List String :=
  [ nameAndTag "DEF_SCRIPT" o.scriptName o.scriptTag ++ "\n",
    nameAndTag "DEF_LANGSYS" o.languageName o.languageTag ++ "\n",
    nameAndTag "DEF_FEATURE" o.featureName o.featureTag,
    String.join (rules.map fun rule => " LOOKUP \"" ++ rule.name ++ "\"") ++ "\n",
    "END_FEATURE\n",
    "END_LANGSYS\n",
    "END_SCRIPT\n" ]

end SymbolFont
