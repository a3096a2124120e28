import KustoFacts.Json.Value

/-!
    Reading JSON. A text is read to its end or refused; escapes of surrogate pairs are joined, a
    lone surrogate and a stray byte become the replacement code point. -/

namespace KustoFacts.Json

/-- The bytes JSON allows between its tokens. -/
def isSpace (b : UInt8) : Bool :=
  b = spaceByte || b = tabByte || b = lineFeed || b = carriageReturn

/-- A text without the spaces at its beginning. -/
def skipSpace (text : Bytes) : Bytes := text.dropWhile isSpace

/-- The number written by four hexadecimal digits at the head of a text. -/
def fourDigits? : Bytes → Option (Nat × Bytes)
  | a :: b :: c :: d :: rest => do
    let a ← hexValue? a
    let b ← hexValue? b
    let c ← hexValue? c
    let d ← hexValue? d
    return (((a * 0x10 + b) * 0x10 + c) * 0x10 + d, rest)
  | _ => none

/-- The byte an escape letter stands for. -/
def letterEscape? (letter : UInt8) : Option UInt8 :=
  if letter = doubleQuote || letter = backslash || letter = byteOf '/' then some letter
  else if letter = byteOf 'b' then some 0x08
  else if letter = byteOf 'f' then some 0x0C
  else if letter = byteOf 'n' then some lineFeed
  else if letter = byteOf 'r' then some carriageReturn
  else if letter = byteOf 't' then some tabByte
  else none

/-- Whether a code unit is the first half of a surrogate pair. -/
def isHighHalf (unit : Nat) : Bool := 0xD800 ≤ unit && unit ≤ 0xDBFF

/-- Whether a code unit is the second half of a surrogate pair. -/
def isLowHalf (unit : Nat) : Bool := 0xDC00 ≤ unit && unit ≤ 0xDFFF

/-- What a number escape stands for, given the text after its digits: a code point, and the number
    of bytes of a second escape that belongs to it. -/
def escapedCode (unit : Nat) (rest : Bytes) : Nat × Nat :=
  if isHighHalf unit then
    match (Bytes.after? (bytes "\\u") rest).bind fourDigits? with
    | some (low, _) =>
      if isLowHalf low then (0x10000 + (unit - 0xD800) * 0x400 + (low - 0xDC00), 6)
      else (Utf8.replacement, 0)
    | none => (Utf8.replacement, 0)
  else if isLowHalf unit then (Utf8.replacement, 0)
  else (unit, 0)

/-- Reads a string after its opening quote; `skip` bytes belong to an escape already read, and
    `found` holds the text so far in reverse. -/
def readString : (skip : Nat) → (found : Bytes) → Bytes → Option (Bytes × Bytes)
  | _, _, [] => none
  | skip + 1, found, _ :: rest => readString skip found rest
  | 0, found, b :: rest =>
    if b = doubleQuote then
      let text := found.reverse
      some (if Utf8.isValid text then text else Utf8.repaired text, rest)
    else if b < 0x20 then none
    else if b = backslash then
      match rest with
      | [] => none
      | letter :: digits =>
        if letter = byteOf 'u' then
          match fourDigits? digits with
          | none => none
          | some (unit, after) =>
            let (code, more) := escapedCode unit after
            readString (5 + more) ((Utf8.encode code).reverse ++ found) rest
        else
          match letterEscape? letter with
          | some byte => readString 1 (byte :: found) rest
          | none => none
    else readString 0 (b :: found) rest

/-- The digits at the head of a text, at least one, and the rest. -/
def digits? (text : Bytes) : Option (Bytes × Bytes) :=
  let digits := text.takeWhile isDigit
  if digits.isEmpty then none else some (digits, text.drop digits.length)

/-- A number at the head of a text, as it is spelled, and the rest. -/
def readNumber (text : Bytes) : Option (Bytes × Bytes) := do
  let (sign, text) :=
    match text with
    | b :: rest => if b = byteOf '-' then ([b], rest) else ([], b :: rest)
    | [] => ([], [])
  let (whole, text) ← digits? text
  if whole.length > 1 && whole.head? = some (byteOf '0') then none
  let (fraction, text) ←
    match text with
    | b :: rest =>
      if b = byteOf '.' then (digits? rest).map fun (ds, rest) => (b :: ds, rest)
      else some ([], text)
    | [] => some ([], [])
  let (power, text) ←
    match text with
    | e :: rest =>
      if e = byteOf 'e' || e = byteOf 'E' then
        match rest with
        | s :: more =>
          if s = byteOf '+' || s = byteOf '-' then
            (digits? more).map fun (ds, rest) => (e :: s :: ds, rest)
          else (digits? rest).map fun (ds, rest) => (e :: ds, rest)
        | [] => none
      else some ([], text)
    | [] => some ([], [])
  return (sign ++ whole ++ fraction ++ power, text)

mutual

/-- Reads a value in a given number of steps. -/
def readValue : (steps : Nat) → Bytes → Option (Json × Bytes)
  | 0, _ => none
  | steps + 1, text =>
    match skipSpace text with
    | [] => none
    | b :: rest =>
      if b = doubleQuote then (readString 0 [] rest).map fun (s, rest) => (.string s, rest)
      else if b = byteOf '[' then
        match skipSpace rest with
        | [] => none
        | c :: after =>
          if c = byteOf ']' then some (.array [], after) else readItems steps [] rest
      else if b = 0x7B then
        match skipSpace rest with
        | [] => none
        | c :: after => if c = 0x7D then some (.object [], after) else readMembers steps [] rest
      else if b = byteOf 'n' then (Bytes.after? (bytes "ull") rest).map fun rest => (.null, rest)
      else if b = byteOf 't' then
        (Bytes.after? (bytes "rue") rest).map fun rest => (.bool true, rest)
      else if b = byteOf 'f' then
        (Bytes.after? (bytes "alse") rest).map fun rest => (.bool false, rest)
      else (readNumber (b :: rest)).map fun (n, rest) => (.number n, rest)

/-- Reads the items of an array up to its bracket; those read so far are kept latest first. -/
def readItems : (steps : Nat) → List Json → Bytes → Option (Json × Bytes)
  | 0, _, _ => none
  | steps + 1, found, text =>
    match readValue steps text with
    | none => none
    | some (v, rest) =>
      match skipSpace rest with
      | [] => none
      | c :: rest =>
        if c = byteOf ',' then readItems steps (v :: found) rest
        else if c = byteOf ']' then some (.array (v :: found).reverse, rest)
        else none

/-- Reads the members of an object up to its brace; those read so far are kept latest first. -/
def readMembers : (steps : Nat) → List (Bytes × Json) → Bytes → Option (Json × Bytes)
  | 0, _, _ => none
  | steps + 1, found, text =>
    match skipSpace text with
    | [] => none
    | q :: rest =>
      if q ≠ doubleQuote then none
      else
        match readString 0 [] rest with
        | none => none
        | some (name, rest) =>
          match skipSpace rest with
          | [] => none
          | colon :: rest =>
            if colon ≠ byteOf ':' then none
            else
              match readValue steps rest with
              | none => none
              | some (v, rest) =>
                match skipSpace rest with
                | [] => none
                | c :: rest =>
                  if c = byteOf ',' then readMembers steps ((name, v) :: found) rest
                  else if c = 0x7D then some (.object ((name, v) :: found).reverse, rest)
                  else none

end

/-- A whole text read as one value. -/
def read? (text : Bytes) : Option Json :=
  match readValue (2 * text.length + 2) text with
  | some (v, rest) => if (skipSpace rest).isEmpty then some v else none
  | none => none

/-! ### Parts of values -/

/-- The integer a number spells without fraction or exponent. -/
def int? : Json → Option Int
  | .number literal =>
    match literal with
    | b :: rest =>
      if b = byteOf '-' then
        if rest.all isDigit then some (-(ofDecimalDigits rest : Int)) else none
      else if literal.all isDigit then some (ofDecimalDigits literal) else none
    | [] => none
  | _ => none

end KustoFacts.Json
