import KustoFacts.Text.Printable

/-!
    Quoted text, as messages show names: control characters, the quote, the backslash, stray bytes
    and code points that are not printable are written as escapes, everything else stands as it
    is. -/

namespace KustoFacts.Quoted

/-- The letter of a control character that has an escape of its own. -/
def shortEscape? (code : Nat) : Option Char :=
  match code with
  | 7 => some 'a'
  | 8 => some 'b'
  | 9 => some 't'
  | 10 => some 'n'
  | 11 => some 'v'
  | 12 => some 'f'
  | 13 => some 'r'
  | _ => none

/-- The escape of a byte, with two hexadecimal digits. -/
def byteEscape (n : Nat) : Bytes := bytes "\\x" ++ hexPadded 2 n

/-- One unit inside the given quotes. -/
def unit (quote : UInt8) : Glyph → Bytes
  | .stray byte => byteEscape byte.toNat
  | .char code =>
    if code = quote.toNat || code = backslash.toNat then [backslash, code.toUInt8]
    else
      match shortEscape? code with
      | some letter => [backslash, byteOf letter]
      | none =>
        if isPrintable code then Utf8.encode code
        else if code < 0x20 || code = 0x7F then byteEscape code
        else if code < 0x10000 then bytes "\\u" ++ hexPadded 4 code
        else bytes "\\U" ++ hexPadded 8 code

/-- A text in double quotes. -/
def text (t : Bytes) : Bytes :=
  doubleQuote :: (Utf8.glyphs t).flatMap (unit doubleQuote) ++ [doubleQuote]

/-- One byte, read as the code point of the same number, in single quotes. -/
def byte (b : UInt8) : Bytes :=
  singleQuote :: unit singleQuote (.char b.toNat) ++ [singleQuote]

end KustoFacts.Quoted
