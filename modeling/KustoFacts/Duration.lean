import KustoFacts.Number.Double
import KustoFacts.Text.Bytes

/-!
    Lengths of time in nanoseconds, and their text: numbers with units, such as `1h2m3.5s`. A
    duration fits into 64 bits with its sign. -/

namespace KustoFacts

/-- A length of time in nanoseconds. -/
structure Duration where
  nanoseconds : Int
  deriving DecidableEq, Repr

/-- Why a text is not a duration. -/
inductive DurationFault where
  | invalid
  | missingUnit
  | unknownUnit (unit : Bytes)
  deriving DecidableEq, Repr

namespace Duration

/-- A text in double quotes, as these messages show it: control characters and all bytes outside of
    ASCII by number. -/
def quoted (text : Bytes) : Bytes :=
  let one (b : UInt8) : Bytes :=
    if b < 0x20 || 0x80 ≤ b then bytes "\\x" ++ hexPadded 2 b.toNat
    else if b = doubleQuote || b = backslash then [backslash, b]
    else [b]
  doubleQuote :: text.flatMap one ++ [doubleQuote]

/-- The wording of a fault in a text. -/
def faultMessage (text : Bytes) : DurationFault → Bytes
  | .invalid => bytes "time: invalid duration " ++ quoted text
  | .missingUnit => bytes "time: missing unit in duration " ++ quoted text
  | .unknownUnit unit =>
    bytes "time: unknown unit " ++ quoted unit ++ bytes " in duration " ++ quoted text

/-- A minute. -/
def minute : Nat := 60000000000

/-- The units and their lengths. The prefix for a millionth has two spellings. -/
def units : List (String × Nat) :=
  [("ns", 1), ("us", 1000), ("\u00B5s", 1000), ("\u03BCs", 1000), ("ms", 1000000),
    ("s", 1000000000), ("m", minute), ("h", 60 * minute)]

/-- The length of a unit. -/
def unitLength? (unit : Bytes) : Option Nat :=
  (units.find? fun u => bytes u.1 = unit).map (·.2)

/-! ### Reading -/

/-- The greatest length without sign. -/
def bound : Nat := halfWordCount

/-- Digits before the point; `none` when they exceed the bound. -/
def whole? (digits : Bytes) : Option Nat :=
  let n := ofDecimalDigits digits
  if n ≤ bound then some n else none

/-- Digits after the point as a number and the number of digits it has; those that no longer fit do
    not count. -/
def fraction (digits : Bytes) : Nat × Nat :=
  let (n, count, _) := digits.foldl (fun (n, count, full) d =>
    let longer := 10 * n + (d.toNat - 0x30)
    if full || (bound - 1) / 10 < n || bound < longer then (n, count, true)
    else (longer, count + 1, false)) ((0, 0, false) : Nat × Nat × Bool)
  (n, count)

/-- The mantissa and exponent of a double as a ratio. -/
def ratio : Double → Nat × Nat
  | .finite _ m e => if 0 ≤ e then (m * twoTo e.toNat, 1) else (m, twoTo (-e).toNat)
  | _ => (0, 1)

/-- A fraction of a unit in whole nanoseconds, computed in double precision. -/
def fractionOf (unit : Nat) (digits : Bytes) : Nat :=
  let (n, count) := fraction digits
  let round (num den : Nat) : Nat × Nat := ((Double.ofRatio? false num den).map ratio).getD (0, 1)
  let (a, b) := round n 1
  let (c, d) := round unit (tenTo count)
  let (p, q) := round (a * c) (b * d)
  p / q

/-- One number with its unit at the beginning of a text: its length and the text after it. -/
def term? (text : Bytes) : Except DurationFault (Nat × Bytes) := do
  let before := text.takeWhile isDigit
  let rest := text.dropWhile isDigit
  let (after, rest) :=
    match rest with
    | b :: more =>
      if b = byteOf '.' then (more.takeWhile isDigit, more.dropWhile isDigit) else ([], rest)
    | [] => ([], [])
  let some n := whole? before | throw .invalid
  if before.isEmpty && after.isEmpty then throw .invalid
  let isUnit (b : UInt8) : Bool := !(b = byteOf '.' || isDigit b)
  let unit := rest.takeWhile isUnit
  if unit.isEmpty then throw .missingUnit
  let some length := unitLength? unit | throw (.unknownUnit unit)
  let total := n * length + fractionOf length after
  if bound < n * length || bound < total then throw .invalid
  return (total, rest.dropWhile isUnit)

/-- The terms of a text, added onto what was read so far. Every term takes at least one byte, so
    that the length of the text is fuel enough. -/
def terms : (fuel : Nat) → (sum : Nat) → Bytes → Except DurationFault Nat
  | _, sum, [] => .ok sum
  | 0, _, _ => .error .invalid
  | fuel + 1, sum, text =>
    match term? text with
    | .error e => .error e
    | .ok (length, rest) =>
      if bound < sum + length then .error .invalid else terms fuel (sum + length) rest

/-- The duration a text spells. Zero needs no unit. -/
def read (text : Bytes) : Except DurationFault Duration := do
  let (negative, body) :=
    match text with
    | b :: rest =>
      if b = byteOf '-' then (true, rest) else if b = byteOf '+' then (false, rest)
      else (false, text)
    | [] => (false, [])
  if body = bytes "0" then return ⟨0⟩
  if body.isEmpty then throw .invalid
  let n ← terms body.length 0 body
  if negative then return ⟨-n⟩
  else if n < bound then return ⟨n⟩
  else throw .invalid

/-! ### Writing -/

/-- A number of units of `10 ^ places` parts each, with a point and without zeros at the end. -/
def withFraction (places n : Nat) : Bytes :=
  let part := decimal (n % tenTo places)
  let part := List.replicate (places - part.length) (byteOf '0') ++ part
  let part := (part.reverse.dropWhile (· = byteOf '0')).reverse
  decimal (n / tenTo places) ++
    if places = 0 || part.isEmpty then [] else byteOf '.' :: part

/-- A length without sign: below a second in the greatest unit that it reaches, and in hours,
    minutes and seconds otherwise. -/
def magnitudeText (n : Nat) : Bytes :=
  if n = 0 then bytes "0s"
  else if n < 1000 then withFraction 0 n ++ bytes "ns"
  else if n < 1000000 then withFraction 3 n ++ bytes "\u00B5s"
  else if n < 1000000000 then withFraction 6 n ++ bytes "ms"
  else
    let minutes := n / minute
    let seconds := withFraction 9 (n % minute) ++ bytes "s"
    if minutes = 0 then seconds
    else if minutes < 60 then decimal minutes ++ bytes "m" ++ seconds
    else decimal (minutes / 60) ++ bytes "h" ++ decimal (minutes % 60) ++ bytes "m" ++ seconds

/-- The text of a duration. -/
def text (d : Duration) : Bytes :=
  if d.nanoseconds < 0 then byteOf '-' :: magnitudeText d.nanoseconds.natAbs
  else magnitudeText d.nanoseconds.natAbs

end Duration
end KustoFacts
