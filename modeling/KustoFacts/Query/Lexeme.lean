import KustoFacts.Query.Diagnostic

/-!
    What stands at the head of a text. `Lexeme.head` says which kind of token a text that begins with
    a given byte starts with and how many bytes it takes, so that the token's text is a piece of
    the input and nothing is rebuilt. The readers of the single forms count bytes and look at the
    input from where they stand; none of them moves backwards. -/

namespace KustoFacts

/-- The bytes that count as letters: the ASCII letters and every byte above ASCII. -/
def isLetterByte (b : UInt8) : Bool := isLower b || isUpper b || 0x80 ≤ b

/-- The bytes a word is made of. -/
def isWordByte (b : UInt8) : Bool := isLetterByte b || isDigit b || b = byteOf '_'

/-- The bytes between tokens that are not a comment. -/
def isLayoutByte (b : UInt8) : Bool :=
  b = spaceByte || b = tabByte || b = lineFeed || b = carriageReturn

/-- The bytes that open and close a quoted string. -/
def isQuote (b : UInt8) : Bool := b = singleQuote || b = doubleQuote

/-- The words that begin a literal whose parenthesised body is kept as it is. -/
def typedLiteralWords : List Bytes :=
  ["datetime", "timespan", "time", "date", "guid", "uuid", "uniqueid", "dynamic", "bool",
    "boolean", "int", "long", "real", "double", "decimal", "typeof"].map bytes

/-- The words that are spelled with a dash. -/
def dashedWords : List Bytes :=
  ["project-away", "project-keep", "project-rename", "project-reorder", "project-smart",
    "mv-expand", "mv-apply", "make-series", "make-graph", "parse-where", "parse-kv", "top-nested",
    "top-hitters", "sample-distinct", "graph-match", "graph-merge", "assert-schema"].map bytes

/-- Why a lexeme is not sound. The last cause leaves no text to report: an escape inside a typed
    literal skips a byte that is not there. -/
inductive LexFault where
  | unexpectedByte
  | unterminatedString
  | unterminatedLiteral
  | escapeAtEnd
  deriving DecidableEq, Repr

/-- A token at the head of a text: its kind, the number of bytes it takes after the first, and
    what is wrong with it. -/
structure Lexeme where
  kind : TokenKind
  more : Nat
  fault : Option LexFault
  deriving DecidableEq, Repr

namespace Lexeme

/-- A sound lexeme with `more` bytes after its first. -/
def sound (kind : TokenKind) (more : Nat) : Lexeme := ⟨kind, more, none⟩

/-- The number of bytes at the head of a text that satisfy a test. -/
def count (test : UInt8 → Bool) (text : Bytes) : Nat := (text.takeWhile test).length

/-- Whether a text begins with a byte that satisfies a test. -/
def startsWith (test : UInt8 → Bool) : Bytes → Bool
  | [] => false
  | b :: _ => test b

/-- Whether a text begins with three backticks. -/
def startsFence (text : Bytes) : Bool := text.beginsWith [0x60, 0x60, 0x60]

/-! ### Strings

Each reader is given the text after the opening quote and the number of bytes read so far, and
returns the number of bytes read in the end and whether the string was closed. -/

/-- A quoted string with backslash escapes, which ends at its quote or before a line feed. -/
def quoted (quote : UInt8) : (read : Nat) → Bytes → Nat × Bool
  | read, [] => (read, false)
  | read, b :: rest =>
    if b = lineFeed then (read, false)
    else if b = backslash then
      match rest with
      | [] => (read + 1, false)
      | c :: rest => if c = lineFeed then (read + 1, false) else quoted quote (read + 2) rest
    else if b = quote then (read + 1, true)
    else quoted quote (read + 1) rest

/-- A verbatim string, in which a doubled quote stands for one. -/
def verbatim (quote : UInt8) : (read : Nat) → Bytes → Nat × Bool
  | read, [] => (read, false)
  | read, b :: rest =>
    if b = lineFeed then (read, false)
    else if b = quote then
      match rest with
      | c :: rest => if c = quote then verbatim quote (read + 2) rest else (read + 1, true)
      | [] => (read + 1, true)
    else verbatim quote (read + 1) rest

/-- A fenced string, which runs over lines to the next three backticks. -/
def fenced : (read : Nat) → Bytes → Nat × Bool
  | read, [] => (read, false)
  | read, b :: rest => if startsFence (b :: rest) then (read + 3, true) else fenced (read + 1) rest

/-- The lexeme of a string that was read to the end or not. -/
def ofString : Nat × Bool → Lexeme
  | (more, true) => sound .string more
  | (more, false) => ⟨.string, more, some .unterminatedString⟩

/-! ### Typed literals -/

/-- How a scan of a typed literal's body stands: between strings, inside one, or after a backslash
    inside one. -/
inductive BodyState where
  | plain
  | inside (quote : UInt8)
  | escaped (quote : UInt8)
  deriving DecidableEq, Repr

/-- The body of a typed literal from its opening parenthesis on: parentheses balance outside of
    strings, and a backslash inside a string skips the byte after it. -/
def typedBody : BodyState → (depth read : Nat) → Bytes → Lexeme
  | .plain, _, read, [] => ⟨.literal, read, some .unterminatedLiteral⟩
  | .inside _, _, read, [] => ⟨.literal, read, some .unterminatedString⟩
  | .escaped _, _, read, [] => ⟨.literal, read, some .escapeAtEnd⟩
  | .plain, depth, read, b :: rest =>
    if b = byteOf '(' then typedBody .plain (depth + 1) (read + 1) rest
    else if b = byteOf ')' then
      if depth = 1 then sound .literal (read + 1) else typedBody .plain (depth - 1) (read + 1) rest
    else if isQuote b then typedBody (.inside b) depth (read + 1) rest
    else typedBody .plain depth (read + 1) rest
  | .inside quote, depth, read, b :: rest =>
    if b = backslash then typedBody (.escaped quote) depth (read + 1) rest
    else if b = quote then typedBody .plain depth (read + 1) rest
    else typedBody (.inside quote) depth (read + 1) rest
  | .escaped quote, depth, read, _ :: rest => typedBody (.inside quote) depth (read + 1) rest

/-! ### Words -/

/-- A dashed word that begins with `word`, when the text after `word` begins with a dash and a
    letter. -/
def dashed? (word after : Bytes) : Option Bytes :=
  match after with
  | dash :: rest =>
    if dash = byteOf '-' && startsWith isLetterByte rest then
      let candidate := word ++ dash :: rest.takeWhile isWordByte
      if dashedWords.contains candidate then some candidate else none
    else none
  | [] => none

/-- The lexeme that begins with `word`: a dashed word, the word `in~`, a typed literal or the word
    itself. `after` is the text that follows `word`. -/
def ofWord (word after : Bytes) : Lexeme :=
  let more := word.length - 1
  match dashed? word after with
  | some long => sound .word (long.length - 1)
  | none =>
    if word = bytes "in" && startsWith (· = byteOf '~') after then sound .word (more + 1)
    else
      let blanks := count isLayoutByte after
      if typedLiteralWords.contains word && startsWith (· = byteOf '(') (after.drop blanks) then
        typedBody .plain 0 (more + blanks) (after.drop blanks)
      else sound .word more

/-- A word that begins with byte `b`. -/
def word (b : UInt8) (rest : Bytes) : Lexeme :=
  let tail := rest.takeWhile isWordByte
  ofWord (b :: tail) (rest.drop tail.length)

/-- A negated word operator after its exclamation mark. -/
def negated (rest : Bytes) : Lexeme :=
  let name := rest.takeWhile isWordByte
  if name = bytes "in" && startsWith (· = byteOf '~') (rest.drop name.length) then
    sound .negatedWord (name.length + 1)
  else sound .negatedWord name.length

/-! ### Numbers -/

/-- The length of a fraction: a point that no second point follows, and digits. -/
def fraction (text : Bytes) : Nat :=
  match text with
  | b :: rest =>
    if b = byteOf '.' && !startsWith (· = byteOf '.') rest then 1 + count isDigit rest else 0
  | [] => 0

/-- The length of an exponent: the letter e, a sign if there is one, and at least one digit. -/
def exponent (text : Bytes) : Nat :=
  match text with
  | e :: rest =>
    if e = byteOf 'e' || e = byteOf 'E' then
      match rest with
      | s :: digits =>
        if isDigit s then 1 + count isDigit rest
        else if (s = byteOf '+' || s = byteOf '-') && startsWith isDigit digits then
          2 + count isDigit digits
        else 0
      | [] => 0
    else 0
  | [] => 0

/-- The length of a decimal number: digits, a fraction, an exponent and the letters of a unit. -/
def decimalLength (text : Bytes) : Nat :=
  let whole := count isDigit text
  let part := fraction (text.drop whole)
  let power := exponent (text.drop (whole + part))
  let read := whole + part + power
  read + count isLetterByte (text.drop read)

/-- A number that begins with byte `b`, decimal or hexadecimal. -/
def number (b : UInt8) (rest : Bytes) : Lexeme :=
  if b = byteOf '0' && startsWith (fun c => c = byteOf 'x' || c = byteOf 'X') rest then
    sound .number (1 + count (fun c => (hexValue? c).isSome) (rest.drop 1))
  else sound .number (decimalLength (b :: rest) - 1)

/-! ### All forms -/

/-- The kind of a byte that is always a token of its own. -/
def punctuation? (b : UInt8) : Option TokenKind :=
  [('|', TokenKind.pipe), (',', .comma), (';', .semicolon), ('(', .leftParen), (')', .rightParen),
    ('[', .leftBracket), (']', .rightBracket), ('\x7b', .leftBrace), ('\x7d', .rightBrace),
    (':', .colon), ('+', .plus), ('-', .minus), ('*', .star), ('/', .slash),
    ('%', .percent)].findSome? fun (c, kind) => if b = byteOf c then some kind else none

/-- The operator spelled by a byte and the byte after it. -/
def pair? (b : UInt8) (rest : Bytes) : Option TokenKind :=
  [('.', '.', TokenKind.dotDot), ('=', '=', .equal), ('=', '~', .equalTilde), ('=', '>', .arrow),
    ('<', '=', .lessEqual), ('<', '>', .notEqual), ('>', '=', .greaterEqual), ('!', '=', .notEqual),
    ('!', '~', .notTilde)].findSome? fun (c, d, kind) =>
      if b = byteOf c && startsWith (· = byteOf d) rest then some kind else none

/-- The operator spelled by a byte when the byte after it does not belong to it. -/
def alone? (b : UInt8) : Option TokenKind :=
  [('.', TokenKind.dot), ('=', .assign), ('<', .less), ('>', .greater)].findSome? fun (c, kind) =>
    if b = byteOf c then some kind else none

/-- The string after an `h` or `H`, or after an at sign, or none of them; `rest` begins with a
    quote, or with an at sign and a quote, and `read` bytes stand before it. -/
def string? (read : Nat) (rest : Bytes) : Option Lexeme :=
  match rest with
  | [] => none
  | b :: rest =>
    if isQuote b then some (ofString (quoted b (read + 1) rest))
    else if b = byteOf '@' then
      match rest with
      | q :: rest => if isQuote q then some (ofString (verbatim q (read + 2) rest)) else none
      | [] => none
    else none

/-- A byte that begins no token. -/
def unexpected : Lexeme := ⟨.illegal, 0, some .unexpectedByte⟩

/-- The lexeme at the head of the text `b :: rest`, where `b` is no layout. -/
def head (b : UInt8) (rest : Bytes) : Lexeme :=
  match punctuation? b with
  | some kind => sound kind 0
  | none =>
    match pair? b rest with
    | some kind => sound kind 1
    | none =>
      if b = byteOf '.' && startsWith isDigit rest then number b rest
      else
        match alone? b with
        | some kind => sound kind 0
        | none =>
          if b = byteOf '!' then
            if startsWith isLetterByte rest then negated rest else unexpected
          else if isQuote b then ofString (quoted b 0 rest)
          else if b = 0x60 then
            if startsFence (b :: rest) then ofString (fenced 2 (rest.drop 2)) else unexpected
          else if b = byteOf '@' then
            match rest with
            | q :: rest => if isQuote q then ofString (verbatim q 1 rest) else unexpected
            | [] => unexpected
          else if b = byteOf 'h' || b = byteOf 'H' then (string? 0 rest).getD (word b rest)
          else if isLetterByte b || b = byteOf '_' || b = byteOf '$' then word b rest
          else if isDigit b then number b rest
          else unexpected

end Lexeme
end KustoFacts
