import KustoFacts.Text.Base64
import KustoFacts.Text.Utf8
import KustoFacts.Yaml.Plain

/-!
    Writing YAML scalars. A text stands plain where that reads back as the same text, in single
    quotes where only its characters forbid it, in double quotes where escapes are needed or where
    it would read as something else, and as a block of lines where it has lines. Bytes that are not
    UTF-8 are written in base64 under a tag. -/

namespace KustoFacts.Yaml

/-! ### What a text holds -/

/-- The characters that a reader takes for the end of a line. -/
def endsLine (code : Nat) : Bool :=
  code = 0x0A || code = 0x0D || code = 0x85 || code = 0x2028 || code = 0x2029

/-- The characters that may stand unescaped. -/
def isWritable (code : Nat) : Bool :=
  code = 0x0A || (0x20 ≤ code && code ≤ 0x7E) || (0xA0 ≤ code && code ≤ 0xD7FF) ||
    (0xE000 ≤ code && code ≤ 0xFFFD && code ≠ 0xFEFF)

/-- Whether two neighbours in a list stand in a relation. -/
def anyNeighbours (p : Nat → Nat → Bool) : List Nat → Bool
  | a :: b :: rest => p a b || anyNeighbours p (b :: rest)
  | _ => false

/-- Whether an ASCII character of a string has a given code. -/
def inString (s : String) (code : Nat) : Bool := s.toList.any fun c => c.toNat = code

/-- Whether a space or a tab comes first, or nothing. -/
def blankFirst : List Nat → Bool
  | [] => true
  | code :: _ => code = 0x20 || code = 0x09

/-- Whether a space or the end of a line stands at one of the two ends. -/
def hasBlankEdge (codes : List Nat) : Bool :=
  let edge (code : Nat) : Bool := code = 0x20 || endsLine code
  codes.head?.any edge || codes.getLast?.any edge

/-- Whether the beginning is one that only structure begins with. -/
def beginsStructure (codes : List Nat) : Bool :=
  match codes with
  | [] => false
  | c :: rest =>
    inString "#,[]\x7b\x7d&*!|>'\"%@`" c || (inString "?:-" c && blankFirst rest) ||
      (List.replicate 3 (Char.toNat '-')).isPrefixOf codes ||
      (List.replicate 3 (Char.toNat '.')).isPrefixOf codes

/-- Whether a colon stands before a blank or at the end, or a number sign after a blank. -/
def holdsStructure (codes : List Nat) : Bool :=
  codes.getLast? = some (Char.toNat ':') ||
    anyNeighbours (fun a b =>
      (a = Char.toNat ':' && (b = 0x20 || b = 0x09)) ||
        (b = Char.toNat '#' && (a = 0x20 || a = 0x09 || endsLine a))) codes

/-- Whether a space follows the end of a line. -/
def hasIndentedLine (codes : List Nat) : Bool := anyNeighbours (fun a b => endsLine a && b = 0x20) codes

/-- Whether a space comes before the end of a line. -/
def hasTrailingSpace (codes : List Nat) : Bool :=
  anyNeighbours (fun a b => a = 0x20 && endsLine b) codes

/-- Whether a character other than the tab needs an escape. -/
def needsEscape (codes : List Nat) : Bool := codes.any fun c => c ≠ 0x09 && !isWritable c

/-- Whether a text may stand in single quotes. -/
def mayBeSingle (codes : List Nat) : Bool :=
  !(hasIndentedLine codes || hasTrailingSpace codes || codes.contains 0x09 || needsEscape codes)

/-- Whether the characters of a text allow it to stand plain. -/
def mayBePlain (codes : List Nat) : Bool :=
  mayBeSingle codes && !hasBlankEdge codes && !codes.any endsLine && !beginsStructure codes &&
    !holdsStructure codes

/-- Whether a text may stand as a block of lines. -/
def mayBeBlock (codes : List Nat) : Bool :=
  !(codes.getLast? = some 0x20 || hasTrailingSpace codes || needsEscape codes)

/-- Whether a plain scalar reads back as this text, also with readers that know more spellings of
    truth values and numbers. -/
def readsAsText (text : Bytes) : Bool :=
  PlainValue.ofText text = .text && !isBaseSixty text && !isOldBool text

/-! ### Styles -/

/-- How a scalar is written. -/
inductive ScalarStyle where
  | plain
  | single
  | double
  | block
  deriving DecidableEq, Repr

/-- The style for given code points; `plain` tells whether their text reads back when it stands
    plain. -/
def ScalarStyle.choose (plain : Bool) (codes : List Nat) : ScalarStyle :=
  if codes.contains 0x0A then (if mayBeBlock codes then .block else .double)
  else if !plain then .double
  else if mayBePlain codes then .plain
  else if mayBeSingle codes then .single
  else .double

/-- A scalar about to be written: its tag, its code points and its style. -/
structure Written where
  tag : Bytes
  codes : List Nat
  style : ScalarStyle
  deriving DecidableEq, Repr

/-- Base64 in lines of 70 characters, or in one line without an end if it is shorter. -/
def base64Lines (text : Bytes) : Bytes :=
  let whole := Base64.encode text
  if whole.length < 70 then whole else cut 70 whole
where
  /-- The lines of a text of which `left` more bytes fit into the line at hand. -/
  cut : (left : Nat) → Bytes → Bytes
  | left, [] => if left < 70 then [lineFeed] else []
  | 0, b :: rest => lineFeed :: b :: cut 69 rest
  | left + 1, b :: rest => b :: cut left rest

/-- A text about to be written. -/
def Written.ofText (text : Bytes) : Written :=
  if Utf8.isValid text then
    let codes := Utf8.codes text
    ⟨[], codes, .choose (readsAsText text) codes⟩
  else
    let codes := Utf8.codes (base64Lines text)
    ⟨bytes "!!binary", codes, .choose true codes⟩

/-! ### Forms -/

/-- Spaces up to a column. -/
def spaces (n : Nat) : Bytes := List.replicate n spaceByte

/-- A text in single quotes: a quote is written twice, and a line begins at the indentation. -/
def singleQuoted (indent : Nat) (codes : List Nat) : Bytes :=
  singleQuote :: go false codes ++ [singleQuote]
where
  /-- The characters after one that ended a line or did not. -/
  go : (fresh : Bool) → List Nat → Bytes
  | _, [] => []
  | fresh, c :: rest =>
    if endsLine c then Utf8.encode c ++ go true rest
    else
      (if fresh then spaces indent else []) ++ (if c = 0x27 then [singleQuote] else []) ++
        Utf8.encode c ++ go false rest

/-- The letter of a character that has an escape of its own. -/
def escapeLetter? (code : Nat) : Option Char :=
  let table : List (Nat × Char) :=
    [(0x00, '0'), (0x07, 'a'), (0x08, 'b'), (0x09, 't'), (0x0A, 'n'), (0x0B, 'v'), (0x0C, 'f'),
      (0x0D, 'r'), (0x1B, 'e'), (0x22, '"'), (0x5C, '\\'), (0x85, 'N'), (0x2028, 'L'),
      (0x2029, 'P')]
  table.lookup code

/-- An escape by number, in hexadecimal digits with capitals. -/
def numberEscape (code : Nat) : Bytes :=
  let upper (digits : Bytes) : Bytes := digits.map fun b => if isLower b then b - 0x20 else b
  if code ≤ 0xFF then byteOf 'x' :: upper (hexPadded 2 code)
  else if code ≤ 0xFFFF then byteOf 'u' :: upper (hexPadded 4 code)
  else byteOf 'U' :: upper (hexPadded 8 code)

/-- One character in double quotes. -/
def escaped (code : Nat) : Bytes :=
  if isWritable code && !endsLine code && code ≠ 0x22 && code ≠ 0x5C then Utf8.encode code
  else
    backslash ::
      match escapeLetter? code with
      | some letter => [byteOf letter]
      | none => numberEscape code

/-- A text in double quotes. -/
def doubleQuoted (codes : List Nat) : Bytes :=
  doubleQuote :: codes.flatMap escaped ++ [doubleQuote]

/-- What a block of lines begins with: the mark, the indentation if the first line does not show
    it, and what becomes of the line ends at the end. -/
def blockHeader (codes : List Nat) : Bytes :=
  let indentation :=
    if codes.head?.any fun c => c = 0x20 || endsLine c then bytes "2" else []
  let ending :=
    match codes.reverse with
    | [] => bytes "-"
    | last :: before =>
      if !endsLine last then bytes "-"
      else if before.head?.all endsLine then bytes "+"
      else []
  bytes "|" ++ indentation ++ ending

/-- The lines of a block; the first line end of the block is that of its header if it begins with
    one. -/
def blockLines (indent : Nat) (codes : List Nat) : Bytes :=
  (if codes.head?.any endsLine then [] else [lineFeed]) ++ go true codes
where
  /-- The characters after one that ended a line or did not. -/
  go : (fresh : Bool) → List Nat → Bytes
  | fresh, [] => if fresh then [] else [lineFeed]
  | fresh, c :: rest =>
    if endsLine c then Utf8.encode c ++ go true rest
    else (if fresh then spaces indent else []) ++ Utf8.encode c ++ go false rest

namespace Written

/-- A scalar without the end of its line, unless it is a block, which has one. -/
def text (w : Written) (indent : Nat) : Bytes :=
  let body :=
    match w.style with
    | .plain => w.codes.flatMap Utf8.encode
    | .single => singleQuoted indent w.codes
    | .double => doubleQuoted w.codes
    | .block => blockHeader w.codes ++ blockLines indent w.codes
  if w.tag = [] then body else w.tag ++ spaceByte :: body

/-- A scalar with the end of its line. -/
def line (w : Written) (indent : Nat) : Bytes :=
  if w.style = .block then w.text indent else w.text indent ++ [lineFeed]

/-- Whether a key may stand before its colon without a mark: it is on one line and not long. -/
def isSimpleKey (w : Written) : Bool :=
  !w.codes.any endsLine && w.tag.length + (w.codes.flatMap Utf8.encode).length ≤ 128

end Written

/-! ### Entries -/

/-- The items of a list, each after a dash in a given column. -/
def itemLines (column : Nat) (items : List Bytes) : Bytes :=
  items.flatMap fun item =>
    spaces column ++ bytes "- " ++ (Written.ofText item).line (column + 2)

/-- An entry of a map with a list as its value, the key in a given column. A key that is not simple
    stands after a mark, on lines of its own. -/
def listEntry (column : Nat) (key : Bytes) (items : List Bytes) : Bytes :=
  let key := Written.ofText key
  let lines := itemLines (column + 2) items
  if key.isSimpleKey then
    spaces column ++ key.text (column + 2) ++ bytes ":" ++
      if items.isEmpty then bytes " []\n" else lineFeed :: lines
  else
    spaces column ++ bytes "? " ++ key.line (column + 2) ++ spaces column ++ bytes ": " ++
      if items.isEmpty then bytes "[]\n" else lines.drop (column + 2)

/-- An entry of a map with a scalar as its value. -/
def scalarEntry (key value : Bytes) : Bytes :=
  (Written.ofText key).text 2 ++ bytes ": " ++ (Written.ofText value).line 2

end KustoFacts.Yaml
