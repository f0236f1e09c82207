/-
# Positioning rules

A rule moves glyphs that stand before two number glyphs.  The numbers are coordinates on a
grid whose middle is 750; their distances from it, the second one upwards, are what the
targets are moved by.
-/

import SymbolFont.Text.Integer

namespace SymbolFont

/-- What a rule moves: a glyph or a group of glyphs. -/
inductive Target where
  | glyph (name : String)
  | group (name : String)
  deriving DecidableEq, Repr

/-- A target in a project. -/
def Target.render : Target → String
  | .glyph name => "GLYPH \"" ++ name ++ "\""
  | .group name => "GROUP \"" ++ name ++ "\""

/-- The direction of writing. -/
inductive Direction where
  | ltr
  | rtl
  deriving DecidableEq, Repr

/-- The name of a direction. -/
def Direction.name : Direction → String
  | .ltr => "LTR"
  | .rtl => "RTL"

/-- Why a rule could not be made. -/
inductive RuleError where
  | invalidContext (lookup value : String)
  | noTargets (lookup : String)
  deriving DecidableEq, Repr

/-- The text of a rule error. -/
def RuleError.message : RuleError → String
  | .invalidContext lookup value =>
      "lookup '" ++ lookup ++ "' has invalid context value '" ++ value ++ "'"
  | .noTargets lookup => "lookup '" ++ lookup ++ "' has no target glyphs"

/-- A positioning rule. -/
structure PositioningRule where
  name : String
  direction : Direction := .ltr
  targets : List Target
  context : String × String
  offset : Int × Int
  deriving DecidableEq, Repr

/-- The middle of the grid. -/
def gridMiddle : Int := 750

/-- The coordinate that a number glyph stands for: the integer behind the two bytes of the
marker. -/
def coordinate? (glyph : String) : Option Int :=
  (Text.behindTwoBytes? glyph.toList).bind Text.int32?

/-- How far to the right of the middle a number glyph is. -/
def rightOffset? (glyph : String) : Option Int :=
  ((coordinate? glyph).map fun v => v - gridMiddle).filter Text.fitsInt32

/-- How far above the middle a number glyph is. -/
def upOffset? (glyph : String) : Option Int :=
  ((coordinate? glyph).map fun v => gridMiddle - v).filter Text.fitsInt32

namespace PositioningRule

/-- Make a rule, which has at least one target and whose context glyphs are number glyphs
with offsets of 32 bits. -/
def make (name : String) (targets : List Target) (context : String × String) :
    Except RuleError PositioningRule :=
  if targets.isEmpty then .error (.noTargets name)
  else
    match rightOffset? context.1, upOffset? context.2 with
    | some dx, some dy => .ok { name, targets, context, offset := (dx, dy) }
    | none, _ => .error (.invalidContext name context.1)
    | some _, none => .error (.invalidContext name context.2)

/-- The rule for another direction of writing. -/
def withDirection (r : PositioningRule) (direction : Direction) : PositioningRule :=
  { r with direction }

/-- The lines that adjust the targets; the keyword stands before the first one only. -/
def adjustLines (offset : Int × Int) : (lead : String) → List Target → List String
  | _, [] => []
  | lead, target :: targets =>
      (lead ++ target.render ++ " BY POS DX " ++ toString offset.1 ++ " DY " ++
          toString offset.2 ++ " END_POS\n") ::
        adjustLines offset " " targets

/-- The lines of a rule in a project. -/
def lines (r : PositioningRule) : List String :=
  [ "DEF_LOOKUP \"" ++ r.name ++ "\" PROCESS_BASE PROCESS_MARKS ALL DIRECTION " ++
      r.direction.name ++ "\n",
    "IN_CONTEXT\n",
    " RIGHT GLYPH \"" ++ r.context.1 ++ "\"\n",
    " RIGHT GLYPH \"" ++ r.context.2 ++ "\"\n",
    "END_CONTEXT\n",
    "AS_POSITION\n" ] ++
  adjustLines r.offset "ADJUST_SINGLE " r.targets ++
  [ "END_ADJUST\n", "END_POSITION\n" ]

/-- A rule in a project. -/
def render (r : PositioningRule) : String := String.join r.lines

end PositioningRule

end SymbolFont
