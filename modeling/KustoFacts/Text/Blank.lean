import KustoFacts.Text.Ranges

/-!
    White space: the code points with the property White_Space, and trimming by it. The zero width
    space and the byte order mark are not white space. -/

namespace KustoFacts

/-- The code points that are white space. -/
def blankRanges : CodeRanges :=
  [(0x9, 0xD), (0x20, 0x20), (0x85, 0x85), (0xA0, 0xA0), (0x1680, 0x1680),
   (0x2000, 0x200A), (0x2028, 0x2029), (0x202F, 0x202F), (0x205F, 0x205F), (0x3000, 0x3000)]

/-- Whether a code point is white space. -/
def isBlankCode (code : Nat) : Bool := blankRanges.has code

/-- Whether a unit of a text is white space; a stray byte is not. -/
def Glyph.isBlank : Glyph → Bool
  | .char code => isBlankCode code
  | .stray _ => false

/-- A text from its first unit on, after `skip` bytes, that is not white space. -/
def dropBlanks : (skip : Nat) → Bytes → Bytes
  | _, [] => []
  | skip + 1, _ :: rest => dropBlanks skip rest
  | 0, a :: rest =>
    let (unit, more) := Utf8.first a rest
    if unit.isBlank then dropBlanks more rest else a :: rest

/-- The offset just past the last unit that is not white space: `pos` bytes have been read, the
    next `skip` belong to the unit read last, and `found` is the offset found so far. -/
def inkEnd : (skip pos found : Nat) → Bytes → Nat
  | _, _, found, [] => found
  | skip + 1, pos, found, _ :: rest => inkEnd skip (pos + 1) found rest
  | 0, pos, found, a :: rest =>
    let (unit, more) := Utf8.first a rest
    inkEnd more (pos + 1) (if unit.isBlank then found else pos + 1 + more) rest

/-- A text without the white space at its two ends. -/
def trimBlanks (text : Bytes) : Bytes :=
  let text := dropBlanks 0 text
  text.take (inkEnd 0 0 0 text)

end KustoFacts
