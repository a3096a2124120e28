import KustoFacts.Text.Bytes

/-!
    UTF-8. `Utf8.glyphs` reads a text as code points, keeping each byte that belongs to none as a
    stray byte of its own, so that no text is refused and none is lost. `Utf8.isValid` is the
    byte-at-a-time recogniser of the texts without stray bytes. -/

namespace KustoFacts

/-- One unit of a text: a code point, or a byte that spells none. -/
inductive Glyph where
  | char (code : Nat)
  | stray (byte : UInt8)
  deriving DecidableEq, Repr

namespace Utf8

/-- The bytes that continue a code point. -/
def isTail (b : UInt8) : Bool := 0x80 ≤ b && b ≤ 0xBF

/-- The payload of a continuation byte. -/
def tailBits (b : UInt8) : Nat := b.toNat - 0x80

/-- A two-byte spelling: its lead is C2 to DF. -/
def isPair (a b : UInt8) : Bool := 0xC2 ≤ a && a ≤ 0xDF && isTail b

/-- A three-byte spelling: no shorter spelling exists and no surrogate is spelled. -/
def isTriple (a b c : UInt8) : Bool :=
  0xE0 ≤ a && a ≤ 0xEF && isTail b && isTail c && (a != 0xE0 || 0xA0 ≤ b) && (a != 0xED || b ≤ 0x9F)

/-- A four-byte spelling: no shorter spelling exists and the code point is at most 10FFFF. -/
def isQuad (a b c d : UInt8) : Bool :=
  0xF0 ≤ a && a ≤ 0xF4 && isTail b && isTail c && isTail d &&
    (a != 0xF0 || 0x90 ≤ b) && (a != 0xF4 || b ≤ 0x8F)

/-- The first unit of a text that begins with byte `a`, and the number of bytes it takes after
    `a`. -/
def first (a : UInt8) (rest : Bytes) : Glyph × Nat :=
  if a < 0x80 then (.char a.toNat, 0)
  else
    match rest with
    | [] => (.stray a, 0)
    | b :: rest =>
      if isPair a b then (.char ((a.toNat - 0xC0) * 0x40 + tailBits b), 1)
      else
        match rest with
        | [] => (.stray a, 0)
        | c :: rest =>
          if isTriple a b c then
            (.char ((a.toNat - 0xE0) * 0x1000 + tailBits b * 0x40 + tailBits c), 2)
          else
            match rest with
            | [] => (.stray a, 0)
            | d :: _ =>
              if isQuad a b c d then
                (.char ((a.toNat - 0xF0) * 0x40000 + tailBits b * 0x1000 + tailBits c * 0x40 +
                  tailBits d), 3)
              else (.stray a, 0)

/-- The units of a text after its first `skip` bytes. -/
def glyphsAfter : (skip : Nat) → Bytes → List Glyph
  | _, [] => []
  | skip + 1, _ :: rest => glyphsAfter skip rest
  | 0, a :: rest =>
    let (unit, more) := first a rest
    unit :: glyphsAfter more rest

/-- A text as its code points and stray bytes, in order. -/
def glyphs (text : Bytes) : List Glyph := glyphsAfter 0 text

/-- The bytes that spell a code point. -/
def encode (code : Nat) : Bytes :=
  if code < 0x80 then [code.toUInt8]
  else if code < 0x800 then [(0xC0 + code / 0x40).toUInt8, (0x80 + code % 0x40).toUInt8]
  else if code < 0x10000 then
    [(0xE0 + code / 0x1000).toUInt8, (0x80 + code / 0x40 % 0x40).toUInt8,
      (0x80 + code % 0x40).toUInt8]
  else
    [(0xF0 + code / 0x40000).toUInt8, (0x80 + code / 0x1000 % 0x40).toUInt8,
      (0x80 + code / 0x40 % 0x40).toUInt8, (0x80 + code % 0x40).toUInt8]

/-- The code point that stands for a byte that belongs to none. -/
def replacement : Nat := 0xFFFD

/-- The code points of a text, with the replacement for each stray byte. -/
def codes (text : Bytes) : List Nat :=
  (glyphs text).map fun
    | .char code => code
    | .stray _ => replacement

/-! ### Validity -/

/-- What the recogniser still owes: continuation bytes, the first of which may be restricted. -/
inductive Owed where
  | nothing
  | tails (low high : UInt8) (more : Nat)
  deriving DecidableEq, Repr

/-- The recogniser after one byte; `none` when the byte cannot stand there. -/
def Owed.step : Owed → UInt8 → Option Owed
  | .nothing, b =>
    if b < 0x80 then some .nothing
    else if 0xC2 ≤ b && b ≤ 0xDF then some (.tails 0x80 0xBF 0)
    else if b = 0xE0 then some (.tails 0xA0 0xBF 1)
    else if b = 0xED then some (.tails 0x80 0x9F 1)
    else if 0xE1 ≤ b && b ≤ 0xEF then some (.tails 0x80 0xBF 1)
    else if b = 0xF0 then some (.tails 0x90 0xBF 2)
    else if 0xF1 ≤ b && b ≤ 0xF3 then some (.tails 0x80 0xBF 2)
    else if b = 0xF4 then some (.tails 0x80 0x8F 2)
    else none
  | .tails low high more, b =>
    if low ≤ b && b ≤ high then
      match more with
      | 0 => some .nothing
      | n + 1 => some (.tails 0x80 0xBF n)
    else none

/-- The recogniser over a whole text. -/
def Owed.run : Owed → Bytes → Bool
  | owed, [] => owed = .nothing
  | owed, b :: rest =>
    match owed.step b with
    | some next => next.run rest
    | none => false

/-- Whether a text is UTF-8 throughout. -/
def isValid (text : Bytes) : Bool := Owed.nothing.run text

/-- A text with every stray byte exchanged for the replacement code point. -/
def repaired (text : Bytes) : Bytes := (codes text).flatMap encode

end Utf8
end KustoFacts
