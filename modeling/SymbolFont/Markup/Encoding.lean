/-
# Encodings of documents

A document is a sequence of bytes in UTF-8, ISO 8859-1, ASCII or UTF-16.  A byte order
mark settles the encoding; without one it is UTF-8 unless the document declares another
one whose units are bytes.

`Decoder.step` takes one byte and gives at most one character, so that a declaration
can change the encoding of the bytes behind it.
-/

namespace SymbolFont.Markup

/-- The encodings that a declaration can name. -/
inductive Charset where
  | utf8
  | latin1
  | ascii
  | utf16
  deriving DecidableEq, Repr

/-- The names of the encodings, in lower case. -/
def Charset.labels : List (String × Charset) :=
  [("utf-8", .utf8), ("utf8", .utf8), ("iso-8859-1", .latin1), ("latin1", .latin1),
    ("utf-16", .utf16), ("utf16", .utf16), ("ascii", .ascii), ("us-ascii", .ascii)]

/-- Do the two agree, letters of either case, as far as the shorter one goes? -/
def labelMatches (label name : List Char) : Bool :=
  (label.zip name).all fun (l, n) => l == n.toLower

/-- The encoding of a name.  A name is taken for the first label that it agrees with
over the length of the shorter of the two. -/
def Charset.ofName? (name : String) : Option Charset :=
  (Charset.labels.find? fun (label, _) => labelMatches label.toList name.toList).map Prod.snd

/-- How bytes become characters. -/
inductive Decoder where
  /-- Before the first character, with the bytes that may begin a byte order mark. -/
  | fresh (seen : List UInt8)
  /-- UTF-8, inside a character of which `missing` bytes are to come: its bits so far
  and the least number that needs so many bytes.  `marked` tells that a byte order mark
  settled the encoding. -/
  | utf8 (marked : Bool) (missing bits least : Nat)
  | latin1
  | ascii
  /-- UTF-16, with the bytes of a character so far. -/
  | utf16 (bigEndian : Bool) (seen : List UInt8)
  deriving DecidableEq, Repr

namespace Decoder

/-- The character of a number, if it has one. -/
def scalar? (n : Nat) : Option Char :=
  if n.isValidChar then some (Char.ofNat n) else none

/-- One byte of UTF-8. -/
def stepUtf8 (marked : Bool) (missing bits least : Nat) (byte : UInt8) :
    Option (Decoder × Option Char) :=
  let b := byte.toNat
  match missing with
  | 0 =>
      if b < 0x80 then some (.utf8 marked 0 0 0, some (Char.ofNat b))
      else if 0xC0 ≤ b ∧ b < 0xE0 then some (.utf8 marked 1 (b - 0xC0) 0x80, none)
      else if 0xE0 ≤ b ∧ b < 0xF0 then some (.utf8 marked 2 (b - 0xE0) 0x800, none)
      else if 0xF0 ≤ b ∧ b < 0xF8 then some (.utf8 marked 3 (b - 0xF0) 0x10000, none)
      else none
  | missing + 1 =>
      if 0x80 ≤ b ∧ b < 0xC0 then
        let bits := 64 * bits + (b - 0x80)
        if missing = 0 then
          if bits < least then none
          else (scalar? bits).map fun c => (.utf8 marked 0 0 0, some c)
        else some (.utf8 marked missing bits least, none)
      else none

/-- The sixteen-bit unit of two bytes. -/
def unit (bigEndian : Bool) (first second : UInt8) : Nat :=
  if bigEndian then 256 * first.toNat + second.toNat else 256 * second.toNat + first.toNat

/-- One byte of UTF-16. -/
def stepUtf16 (bigEndian : Bool) (seen : List UInt8) (byte : UInt8) :
    Option (Decoder × Option Char) :=
  match seen ++ [byte] with
  | [a, b] =>
      match scalar? (unit bigEndian a b) with
      | some c => some (.utf16 bigEndian [], some c)
      | none => some (.utf16 bigEndian [a, b], none)
  | [a, b, c, d] =>
      let high := unit bigEndian a b
      let low := unit bigEndian c d
      if 0xD800 ≤ high ∧ high < 0xDC00 ∧ 0xDC00 ≤ low ∧ low < 0xE000 then
        (scalar? (0x10000 + 0x400 * (high - 0xD800) + (low - 0xDC00))).map fun c =>
          (.utf16 bigEndian [], some c)
      else none
  | seen => some (.utf16 bigEndian seen, none)

/-- One byte at the start.  A document whose first character is neither a byte order
mark nor ASCII is no document, so such a byte is refused at once. -/
def stepFresh (seen : List UInt8) (byte : UInt8) : Option (Decoder × Option Char) :=
  match seen, byte with
  | [], 0xEF => some (.fresh [0xEF], none)
  | [0xEF], 0xBB => some (.fresh [0xEF, 0xBB], none)
  | [0xEF, 0xBB], 0xBF => some (.utf8 true 0 0 0, none)
  | [], 0xFE => some (.fresh [0xFE], none)
  | [0xFE], 0xFF => some (.utf16 true [], none)
  | [], 0xFF => some (.fresh [0xFF], none)
  | [0xFF], 0xFE => some (.utf16 false [], none)
  | [], byte => if byte < 0x80 then stepUtf8 false 0 0 0 byte else none
  | _, _ => none

/-- Take one byte; a character comes out when it completes one. -/
def step : Decoder → UInt8 → Option (Decoder × Option Char)
  | .fresh seen, byte => stepFresh seen byte
  | .utf8 marked missing bits least, byte => stepUtf8 marked missing bits least byte
  | .latin1, byte => some (.latin1, some (Char.ofNat byte.toNat))
  | .ascii, byte => if byte < 0x80 then some (.ascii, some (Char.ofNat byte.toNat)) else none
  | .utf16 bigEndian seen, byte => stepUtf16 bigEndian seen byte

/-- Turn to the declared encoding.  It may not contradict a byte order mark, and units
of two bytes cannot begin in the middle of a document. -/
def declare (charset : Charset) : Decoder → Option Decoder
  | .utf8 true _ _ _ => if charset = .utf8 then some (.utf8 true 0 0 0) else none
  | .utf16 bigEndian seen => if charset = .utf16 then some (.utf16 bigEndian seen) else none
  | _ =>
      match charset with
      | .utf8 => some (.utf8 false 0 0 0)
      | .latin1 => some .latin1
      | .ascii => some .ascii
      | .utf16 => none

/-- Is the decoder between characters? -/
def isComplete : Decoder → Bool
  | .fresh seen => seen.isEmpty
  | .utf8 _ missing _ _ => missing == 0
  | .latin1 => true
  | .ascii => true
  | .utf16 _ seen => seen.isEmpty

end Decoder

end SymbolFont.Markup
