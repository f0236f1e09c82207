/-
# Events

What the library has to tell while it works, with the level of each message.
-/

import SymbolFont.Font.Basic

namespace SymbolFont

/-- How much an event matters. -/
inductive Level where
  | debug
  | info
  | warn
  deriving DecidableEq, Repr

/-- The name of a level. -/
def Level.name : Level → String
  | .debug => "DEBUG"
  | .info => "INFO"
  | .warn => "WARN"

/-- The number of units per em that outlines are scaled for. -/
def expectedUnits : Float := 1000

/-- Something worth telling. -/
inductive Event where
  | fontRead (entries glyphs metrics : Nat)
  | applying (edit : String)
  | namesCorrected (glyphs : Nat)
  | numeralsHollowed (glyphs : Nat)
  | unexpectedUnits (units : Float)
  | rescaled (glyphs : Nat) (factor : Float)
  | templateRenamed (name : String)
  | generating (glyphs groups lookups : Nat)
  deriving Repr

/-- The level of an event. -/
def Event.level : Event → Level
  | .unexpectedUnits _ | .templateRenamed _ => .warn
  | .generating _ _ _ => .info
  | _ => .debug

/-- The text of an event. -/
def Event.message : Event → String
  | .fontRead entries glyphs metrics =>
      "read " ++ toString entries ++ " cmap entries, " ++ toString glyphs ++ " glyphs and " ++
        toString metrics ++ " metrics"
  | .applying edit => "applying '" ++ edit ++ "'"
  | .namesCorrected glyphs => "corrected " ++ toString glyphs ++ " glyph names"
  | .numeralsHollowed glyphs =>
      "removed outlines from " ++ toString glyphs ++ " number glyphs"
  | .unexpectedUnits units =>
      "font has " ++ Number.display units ++ " units per em, but outlines are scaled for " ++
        Number.display expectedUnits
  | .rescaled glyphs factor =>
      "scaled " ++ toString glyphs ++ " glyphs by " ++ Number.display factor
  | .templateRenamed name =>
      "box template is named '" ++ name ++ "', renaming to '" ++ boxName ++ "'"
  | .generating glyphs groups lookups =>
      "generating project with " ++ toString glyphs ++ " glyphs, " ++ toString groups ++
        " groups and " ++ toString lookups ++ " lookups"

/-- What there is to tell when a font has been read. -/
def Font.readEvent {α : Type} (f : Font α) : Event :=
  .fontRead f.charMap.length f.glyphs.length f.metrics.length

end SymbolFont
