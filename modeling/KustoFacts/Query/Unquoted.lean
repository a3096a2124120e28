import KustoFacts.Query.Lexeme

/-!
    The value of a string literal. A leading `h` or `H` only marks the string and is dropped. A
    fenced string stands for its inside as it is, a verbatim one for its inside with doubled quotes
    made single, and a quoted one for its inside with backslash escapes read. A closing quote that
    is missing is not missed. -/

namespace KustoFacts.Unquoted

/-- The byte an escape stands for: line feed, tab and carriage return have letters, every other
    byte stands for itself. -/
def escaped (b : UInt8) : UInt8 :=
  if b = byteOf 'n' then lineFeed
  else if b = byteOf 't' then tabByte
  else if b = byteOf 'r' then carriageReturn
  else b

/-- A text with its backslash escapes read; a backslash at the very end stays. -/
def readEscapes : Bytes → Bytes
  | [] => []
  | [b] => [b]
  | b :: c :: rest =>
    if b = backslash then escaped c :: readEscapes rest else b :: readEscapes (c :: rest)

/-- A text with each doubled quote made single, from the left. -/
def undouble (quote : UInt8) : Bytes → Bytes
  | [] => []
  | [b] => [b]
  | b :: c :: rest =>
    if b = quote && c = quote then quote :: undouble quote rest
    else b :: undouble quote (c :: rest)

/-- A text without the mark of a hidden string. -/
def withoutMark : Bytes → Bytes
  | [] => []
  | b :: rest => if b = byteOf 'h' || b = byteOf 'H' then rest else b :: rest

/-- The three backticks around a fenced string. -/
def fence : Bytes := [0x60, 0x60, 0x60]

/-- The value of a string literal. -/
def value (literal : Bytes) : Bytes :=
  let literal := withoutMark literal
  match Bytes.after? fence literal with
  | some inside => Bytes.withoutEnding inside fence
  | none =>
    match literal with
    | [] => []
    | first :: rest =>
      if first = byteOf '@' then
        match rest with
        | [] => []
        | quote :: inside => undouble quote (Bytes.withoutEnding inside [quote])
      else readEscapes (Bytes.withoutEnding rest [first])

end KustoFacts.Unquoted
