/-!
    Text is a list of bytes. Query text, names and messages need not be valid UTF-8, and every
    offset, length and order the program reports counts bytes, so a byte list is the text itself
    and not an encoding of it. `bytes` embeds an ordinary string as its UTF-8 bytes; the order on
    texts is the lexicographic order on bytes. -/

namespace KustoFacts

/-- A text as its bytes. -/
abbrev Bytes := List UInt8

/-- The UTF-8 bytes of a string. -/
def bytes (s : String) : Bytes := s.toUTF8.data.toList

/-- The horizontal tab. -/
def tabByte : UInt8 := 0x09

/-- The line feed, which ends a line. -/
def lineFeed : UInt8 := 0x0A

/-- The carriage return. -/
def carriageReturn : UInt8 := 0x0D

/-- The space. -/
def spaceByte : UInt8 := 0x20

/-- The double quote. -/
def doubleQuote : UInt8 := 0x22

/-- The single quote. -/
def singleQuote : UInt8 := 0x27

/-- The backslash. -/
def backslash : UInt8 := 0x5C

/-- The ASCII byte of a character. -/
def byteOf (c : Char) : UInt8 := c.toNat.toUInt8

/-- Text read back as a string; `none` when it is not UTF-8. -/
def Bytes.toString? (b : Bytes) : Option String := String.fromUTF8? ⟨b.toArray⟩

/-! ### Byte classes -/

/-- The decimal digits. -/
def isDigit (b : UInt8) : Bool := 0x30 ≤ b && b ≤ 0x39

/-- The ASCII capitals. -/
def isUpper (b : UInt8) : Bool := 0x41 ≤ b && b ≤ 0x5A

/-- The ASCII small letters. -/
def isLower (b : UInt8) : Bool := 0x61 ≤ b && b ≤ 0x7A

/-- The value of a hexadecimal digit of either case. -/
def hexValue? (b : UInt8) : Option Nat :=
  if isDigit b then some (b.toNat - 0x30)
  else if 0x61 ≤ b && b ≤ 0x66 then some (b.toNat - 0x57)
  else if 0x41 ≤ b && b ≤ 0x46 then some (b.toNat - 0x37)
  else none

/-- An ASCII capital as its small letter; every other byte as itself. -/
def lowerByte (b : UInt8) : UInt8 := if isUpper b then b + 0x20 else b

/-! ### Searching and cutting -/

/-- The text after a given beginning, if it begins so. -/
def Bytes.after? : (beginning text : Bytes) → Option Bytes
  | [], text => some text
  | _ :: _, [] => none
  | b :: bs, c :: cs => if b = c then Bytes.after? bs cs else none

/-- Whether a text begins with another. -/
def Bytes.beginsWith (text beginning : Bytes) : Bool := (Bytes.after? beginning text).isSome

/-- The text without a given ending, if it has it, and unchanged otherwise. -/
def Bytes.withoutEnding (text ending : Bytes) : Bytes :=
  match Bytes.after? ending.reverse text.reverse with
  | some front => front.reverse
  | none => text

/-- The pieces of a text between the occurrences of one byte; there is always at least one. -/
def Bytes.splitOn (sep : UInt8) (text : Bytes) : List Bytes := go [] [] text
where
  /-- Pieces read so far and the current piece, both in reverse. -/
  go (done : List Bytes) (piece : Bytes) : Bytes → List Bytes
  | [] => (piece.reverse :: done).reverse
  | b :: rest => if b = sep then go (piece.reverse :: done) [] rest else go done (b :: piece) rest

/-- The texts of a list with a separator between each two. -/
def Bytes.joinWith (sep : Bytes) (pieces : List Bytes) : Bytes := (pieces.intersperse sep).flatten

/-- Every occurrence of one byte exchanged for another. -/
def Bytes.exchange (old new : UInt8) (text : Bytes) : Bytes :=
  text.map fun b => if b = old then new else b

/-- The part of a text from one offset up to another. -/
def Bytes.slice (text : Bytes) (start stop : Nat) : Bytes := (text.drop start).take (stop - start)

/-! ### Numbers as text -/

/-- A natural number in decimal. -/
def decimal (n : Nat) : Bytes := (Nat.toDigits 10 n).map byteOf

/-- An integer in decimal, with a minus sign when it is negative. -/
def decimalInt : Int → Bytes
  | .ofNat n => decimal n
  | .negSucc n => byteOf '-' :: decimal (n + 1)

/-- A number written with exactly `width` hexadecimal digits in small letters, or more if it needs
    them. -/
def hexPadded (width n : Nat) : Bytes :=
  let digits := (Nat.toDigits 16 n).map byteOf
  List.replicate (width - digits.length) (byteOf '0') ++ digits

/-- The digits of a number read in decimal. -/
def ofDecimalDigits (digits : Bytes) : Nat :=
  digits.foldl (fun n d => 10 * n + (d.toNat - 0x30)) 0

end KustoFacts
