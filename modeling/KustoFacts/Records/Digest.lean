import KustoFacts.Text.Bytes

/-!
    The key of a text in a cache: the 64-bit xxHash of its bytes with seed 0. The text is read as
    little-endian words. From four words on, four lanes take a word each, over and over, and are
    merged in the end; the words that are left, a half word and single bytes follow, and the bits of
    the result are mixed. -/

namespace KustoFacts
namespace Digest

def prime1 : UInt64 := 0x9E3779B185EBCA87
def prime2 : UInt64 := 0xC2B2AE3D27D4EB4F
def prime3 : UInt64 := 0x165667B19E3779F9
def prime4 : UInt64 := 0x85EBCA77C2B2AE63
def prime5 : UInt64 := 0x27D4EB2F165667C5

/-- A word rotated to the left by a number of bits between 1 and 63. -/
def rotate (w n : UInt64) : UInt64 := (w <<< n) ||| (w >>> (64 - n))

/-- One more word taken into a lane. -/
def round (lane w : UInt64) : UInt64 := rotate (lane + w * prime2) 31 * prime1

/-- The four lanes. -/
structure Lanes where
  first : UInt64
  second : UInt64
  third : UInt64
  fourth : UInt64

namespace Lanes

/-- The lanes before any word. -/
def start : Lanes := ⟨prime1 + prime2, prime2, 0, 0 - prime1⟩

/-- Words taken four at a time, with those that are left. -/
def take : List UInt64 → Lanes → Lanes × List UInt64
  | a :: b :: c :: d :: rest, lanes =>
    take rest
      ⟨round lanes.first a, round lanes.second b, round lanes.third c, round lanes.fourth d⟩
  | rest, lanes => (lanes, rest)

/-- The lanes merged. -/
def merge (lanes : Lanes) : UInt64 :=
  let mergeLane (h lane : UInt64) : UInt64 := (h ^^^ round 0 lane) * prime1 + prime4
  let h := rotate lanes.first 1 + rotate lanes.second 7 + rotate lanes.third 12 +
    rotate lanes.fourth 18
  [lanes.first, lanes.second, lanes.third, lanes.fourth].foldl mergeLane h

end Lanes

/-- Bytes as a little-endian number. -/
def littleEndian (text : Bytes) : UInt64 := text.foldr (fun b w => (w <<< 8) ||| b.toUInt64) 0

/-- The words of a text, after those found already, latest first, with the bytes that are left. -/
def wordsAfter (found : List UInt64) : Bytes → List UInt64 × Bytes
  | a :: b :: c :: d :: e :: f :: g :: h :: rest =>
    wordsAfter (littleEndian [a, b, c, d, e, f, g, h] :: found) rest
  | rest => (found.reverse, rest)

/-- A word taken after the lanes. -/
def takeWord (h w : UInt64) : UInt64 := rotate (h ^^^ round 0 w) 27 * prime1 + prime4

/-- A half word taken after the words. -/
def takeHalf (h w : UInt64) : UInt64 := rotate (h ^^^ w * prime1) 23 * prime2 + prime3

/-- A byte taken last. -/
def takeByte (h : UInt64) (b : UInt8) : UInt64 := rotate (h ^^^ b.toUInt64 * prime5) 11 * prime1

/-- The bytes behind the last word taken. -/
def takeRest (h : UInt64) : Bytes → UInt64
  | a :: b :: c :: d :: rest => rest.foldl takeByte (takeHalf h (littleEndian [a, b, c, d]))
  | rest => rest.foldl takeByte h

/-- The bits mixed. -/
def mix (h : UInt64) : UInt64 :=
  let h := (h ^^^ (h >>> 33)) * prime2
  let h := (h ^^^ (h >>> 29)) * prime3
  h ^^^ (h >>> 32)

end Digest

open Digest in
/-- The key of a text. -/
def digest (text : Bytes) : UInt64 :=
  let (words, rest) := wordsAfter [] text
  let (lanes, left) := Lanes.take words .start
  let start := if words.length < 4 then prime5 else lanes.merge
  mix (takeRest (left.foldl takeWord (start + text.length.toUInt64)) rest)

end KustoFacts
