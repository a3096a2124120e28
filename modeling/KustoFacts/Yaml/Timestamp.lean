import KustoFacts.Text.Bytes

/-!
    Points in time as plain YAML scalars: a date, or a date and a time of day. The year has four
    digits and every other field one or two. After a `T` or `t` the time of day ends with a zone;
    after spaces it has none. -/

namespace KustoFacts.Yaml.Timestamp

/-- One or two digits as a number, and the text after them. -/
def field? : Bytes → Option (Nat × Bytes)
  | [] => none
  | a :: rest =>
    if !isDigit a then none
    else
      match rest with
      | b :: more =>
        if isDigit b then some (ofDecimalDigits [a, b], more) else some (ofDecimalDigits [a], rest)
      | [] => some (ofDecimalDigits [a], [])

/-- A field below a bound, and the text after it. -/
def fieldBelow? (bound : Nat) (text : Bytes) : Option (Nat × Bytes) :=
  (field? text).filter (·.1 < bound)

/-- The text after one byte that has to stand there. -/
def expect? (c : Char) (text : Bytes) : Option Bytes := Bytes.after? [byteOf c] text

/-- Whether a year has a 29th of February. -/
def isLeap (year : Nat) : Bool := year % 4 = 0 && (year % 100 ≠ 0 || year % 400 = 0)

/-- The number of days of a month. -/
def daysIn (year month : Nat) : Nat :=
  if month = 2 then (if isLeap year then 29 else 28)
  else if month = 4 || month = 6 || month = 9 || month = 11 then 30
  else 31

/-- A date that exists, and the text after it. -/
def date? (text : Bytes) : Option Bytes := do
  let yearDigits := text.takeWhile isDigit
  if yearDigits.length ≠ 4 then none
  let text ← expect? '-' (text.drop 4)
  let (month, text) ← fieldBelow? 13 text
  let text ← expect? '-' text
  let (day, text) ← field? text
  if 1 ≤ month && 1 ≤ day && day ≤ daysIn (ofDecimalDigits yearDigits) month then some text
  else none

/-- A fraction of a second, if there is one: a point or a comma and digits. -/
def skipFraction : Bytes → Bytes
  | p :: d :: rest =>
    if (p = byteOf '.' || p = byteOf ',') && isDigit d then rest.dropWhile isDigit
    else p :: d :: rest
  | text => text

/-- A time of day, and the text after it. -/
def clock? (text : Bytes) : Option Bytes := do
  let (_, text) ← fieldBelow? 24 text
  let text ← expect? ':' text
  let (_, text) ← fieldBelow? 60 text
  let text ← expect? ':' text
  let (_, text) ← fieldBelow? 60 text
  some (skipFraction text)

/-- Whether a text is a zone: `Z`, or hours and minutes of two digits each with a sign. -/
def isZone (text : Bytes) : Bool :=
  match text with
  | [z] => z = byteOf 'Z'
  | [s, a, b, colon, c, d] =>
    (s = byteOf '+' || s = byteOf '-') && colon = byteOf ':' && [a, b, c, d].all isDigit &&
      ofDecimalDigits [a, b] ≤ 24 && ofDecimalDigits [c, d] ≤ 60
  | _ => false

/-- Whether a text is a point in time. -/
def isTimestamp (text : Bytes) : Bool :=
  match date? text with
  | none => false
  | some [] => true
  | some (b :: rest) =>
    if b = byteOf 'T' || b = byteOf 't' then ((clock? rest).map isZone).getD false
    else if b = spaceByte then clock? (rest.dropWhile (· = spaceByte)) = some []
    else false

end KustoFacts.Yaml.Timestamp
