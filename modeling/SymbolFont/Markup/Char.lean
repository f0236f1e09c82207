/-
# Character classes of markup

White space, name characters and legal characters, as the two versions of the markup
standard define them.  Version 1.1 admits more control characters than 1.0, but as
references only.
-/

namespace SymbolFont.Markup

/-- The versions of the standard that differ in the characters they allow. -/
inductive Version where
  | v10
  | v11
  deriving DecidableEq, Repr

/-- The white space that separates names and makes up blank text. -/
def isSpace (c : Char) : Bool := c == ' ' || c == '\n' || c == '\t' || c == '\r'

/-- Is the character's number in one of the ranges? -/
def inRanges (ranges : List (Nat × Nat)) (c : Char) : Bool :=
  ranges.any fun (low, high) => low ≤ c.toNat && c.toNat ≤ high

/-- The characters, `:` among them, with which a name may begin. -/
def nameStartRanges : List (Nat × Nat) :=
  [(0x61, 0x7A), (0x41, 0x5A), (0x5F, 0x5F), (0x3A, 0x3A), (0xC0, 0xD6), (0xD8, 0xF6),
    (0xF8, 0x2FF), (0x370, 0x37D), (0x37F, 0x1FFF), (0x200C, 0x200D), (0x2070, 0x218F),
    (0x2C00, 0x2FEF), (0x3001, 0xD7FF), (0xF900, 0xFDCF), (0xFDF0, 0xFFFD),
    (0x10000, 0xEFFFF)]

/-- The characters that a name may hold but not begin with. -/
def nameOnlyRanges : List (Nat × Nat) :=
  [(0x2D, 0x2E), (0x30, 0x39), (0xB7, 0xB7), (0x300, 0x36F), (0x203F, 0x2040)]

/-- May a name begin with the character? -/
def isNameStart (c : Char) : Bool := inRanges nameStartRanges c

/-- May a name hold the character? -/
def isNameChar (c : Char) : Bool := isNameStart c || inRanges nameOnlyRanges c

/-- Is the character one that documents of the version may contain at all? -/
def Version.allows : Version → Char → Bool
  | .v10, c =>
      c == '\t' || c == '\n' || c == '\r' ||
        (0x20 ≤ c.toNat && c.toNat != 0xFFFE && c.toNat != 0xFFFF)
  | .v11, c => 1 ≤ c.toNat && c.toNat != 0xFFFE && c.toNat != 0xFFFF

/-- The control characters that version 1.1 admits as references only. -/
def restrictedRanges : List (Nat × Nat) :=
  [(0x01, 0x08), (0x0B, 0x0C), (0x0E, 0x1F), (0x7F, 0x84), (0x86, 0x9F)]

/-- May the character stand for itself in text and attribute values? -/
def Version.allowsLiteral : Version → Char → Bool
  | .v10, c => Version.v10.allows c
  | .v11, c => Version.v11.allows c && !inRanges restrictedRanges c

end SymbolFont.Markup
