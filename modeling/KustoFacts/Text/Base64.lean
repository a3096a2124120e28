import KustoFacts.Text.Bytes

/-!
    Base64 with the standard alphabet and padding. Reading skips line breaks anywhere, ignores the
    unused low bits of the last digit, and reports the offset of the first byte that cannot
    stand. -/

namespace KustoFacts.Base64

/-- The 64 digits in order of their values. -/
def alphabet : Bytes :=
  bytes "ABCDEFGHIJKLMNOPQRSTUVWXYZabcdefghijklmnopqrstuvwxyz0123456789+/"

/-- The padding that fills the last group. -/
def pad : UInt8 := byteOf '='

/-- The digit of a value below 64. -/
def digit (value : Nat) : UInt8 := alphabet.getD value pad

/-- The value of a digit. -/
def value? (b : UInt8) : Option Nat :=
  if isUpper b then some (b.toNat - 0x41)
  else if isLower b then some (b.toNat - 0x61 + 26)
  else if isDigit b then some (b.toNat - 0x30 + 52)
  else if b = byteOf '+' then some 62
  else if b = byteOf '/' then some 63
  else none

/-! ### Writing -/

/-- A text in base64: three bytes become four digits, and padding fills the last group. -/
def encode : Bytes → Bytes
  | [] => []
  | [a] =>
    let n := a.toNat * 0x10
    [digit (n / 0x40), digit (n % 0x40), pad, pad]
  | [a, b] =>
    let n := (a.toNat * 0x100 + b.toNat) * 4
    [digit (n / 0x1000), digit (n / 0x40 % 0x40), digit (n % 0x40), pad]
  | a :: b :: c :: rest =>
    let n := a.toNat * 0x10000 + b.toNat * 0x100 + c.toNat
    digit (n / 0x40000) :: digit (n / 0x1000 % 0x40) :: digit (n / 0x40 % 0x40) ::
      digit (n % 0x40) :: encode rest

/-! ### Reading -/

/-- Whether a byte is a line break, which reading skips. -/
def isBreak (b : UInt8) : Bool := b = lineFeed || b = carriageReturn

/-- After the padding only line breaks may follow; `i` is the offset of the next byte. -/
def finish (i : Nat) (out : Bytes) : Bytes → Except Nat Bytes
  | [] => .ok out.reverse
  | b :: rest => if isBreak b then finish (i + 1) out rest else .error i

/-- The second padding byte of a group with two digits. -/
def secondPad (i : Nat) (out : Bytes) : Bytes → Except Nat Bytes
  | [] => .error i
  | b :: rest =>
    if isBreak b then secondPad (i + 1) out rest
    else if b = pad then finish (i + 1) out rest
    else .error (i - 1)

/-- Reads from offset `i`: `group` holds the digits of the current group and `out` the bytes read,
    latest first. -/
def decodeFrom (i : Nat) (group : List Nat) (out : Bytes) : Bytes → Except Nat Bytes
  | [] => if group.isEmpty then .ok out.reverse else .error (i - group.length)
  | b :: rest =>
    if isBreak b then decodeFrom (i + 1) group out rest
    else
      match value? b, group with
      | some z, [w, x, y] =>
        let n := w * 0x40000 + x * 0x1000 + y * 0x40 + z
        decodeFrom (i + 1) []
          (n.toUInt8 :: (n / 0x100).toUInt8 :: (n / 0x10000).toUInt8 :: out) rest
      | some v, group => decodeFrom (i + 1) (group ++ [v]) out rest
      | none, [w, x] =>
        if b = pad then secondPad (i + 1) ((w * 4 + x / 0x10).toUInt8 :: out) rest else .error i
      | none, [w, x, y] =>
        let n := w * 0x400 + x * 0x10 + y / 4
        if b = pad then finish (i + 1) (n.toUInt8 :: (n / 0x100).toUInt8 :: out) rest
        else .error i
      | none, _ => .error i

/-- A text read from base64, or the offset of the byte that cannot stand. -/
def decode (text : Bytes) : Except Nat Bytes := decodeFrom 0 [] [] text

end KustoFacts.Base64
