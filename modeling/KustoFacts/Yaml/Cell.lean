import KustoFacts.Text.Utf8

/-!
    The characters of a YAML stream with their places, and what may stand between two tokens. Lines
    may end in several ways, all of which become a line feed here, except for the line and the
    paragraph separator, which are kept. -/

namespace KustoFacts.Yaml

/-- A place in a text; lines and columns count from 0. -/
structure Place where
  line : Nat
  column : Nat
  deriving DecidableEq, Repr

/-- A character and its place. -/
structure Cell where
  code : Nat
  line : Nat
  column : Nat
  deriving DecidableEq, Repr

/-- The characters that end a line. -/
def isBreakCode (code : Nat) : Bool := code = 0x0A || code = 0x2028 || code = 0x2029

/-- Spaces and tabs. -/
def isSpaceCode (code : Nat) : Bool := code = 0x20 || code = 0x09

/-- The characters that a stream may hold. -/
def isAllowedCode (code : Nat) : Bool :=
  code = 0x09 || code = 0x0A || code = 0x0D || (0x20 ≤ code && code ≤ 0x7E) || code = 0x85 ||
    (0xA0 ≤ code && code ≤ 0xD7FF) || (0xE000 ≤ code && code ≤ 0xFFFD) || 0x10000 ≤ code

/-- The byte order mark. -/
def orderMark : Nat := 0xFEFF

/-- The code points of a text that a stream may hold; `none` if there is anything else. -/
def codes? (text : Bytes) : Option (List Nat) :=
  (Utf8.glyphs text).mapM fun
    | .char code => if isAllowedCode code then some code else none
    | .stray _ => none

/-- Code points with one line feed for each end of a line. -/
def withLineFeeds : List Nat → List Nat
  | [] => []
  | [code] => [if code = 0x0D || code = 0x85 then 0x0A else code]
  | a :: b :: rest =>
    if a = 0x0D then if b = 0x0A then withLineFeeds (b :: rest) else 0x0A :: withLineFeeds (b :: rest)
    else if a = 0x85 then 0x0A :: withLineFeeds (b :: rest)
    else a :: withLineFeeds (b :: rest)

/-- Code points with their places, from a given place on. -/
def placed (line column : Nat) : List Nat → List Cell
  | [] => []
  | code :: rest =>
    ⟨code, line, column⟩ ::
      if isBreakCode code then placed (line + 1) 0 rest else placed line (column + 1) rest

/-- The characters of a text; a byte order mark at the start does not count. -/
def cells? (text : Bytes) : Option (List Cell) :=
  (codes? text).map fun codes =>
    placed 0 0 (withLineFeeds (if codes.head? = some orderMark then codes.tail else codes))

namespace Cell

/-- Whether a cell ends a line. -/
def isBreak (c : Cell) : Bool := isBreakCode c.code

/-- Whether a cell is a space or a tab. -/
def isSpace (c : Cell) : Bool := isSpaceCode c.code

/-- Whether a cell is a tab. -/
def isTab (c : Cell) : Bool := c.code = 0x09

/-- Whether a cell holds a given ASCII character. -/
def holds (c : Cell) (a : Char) : Bool := c.code = a.toNat

/-- Whether a cell holds one of the characters of a string. -/
def oneOf (c : Cell) (s : String) : Bool := s.toList.any c.holds

/-- The byte of an ASCII character. -/
def ascii? (c : Cell) : Option UInt8 := if c.code < 0x80 then some c.code.toUInt8 else none

/-- Whether a cell belongs to the name of an anchor, of a tag or of a directive. -/
def isWord (c : Cell) : Bool :=
  c.ascii?.any fun b => isDigit b || isUpper b || isLower b || b = byteOf '-' || b = byteOf '_'

end Cell

/-- The place after the last of some cells. -/
def endOf (cells : List Cell) : Place :=
  match cells.getLast? with
  | none => ⟨0, 0⟩
  | some c => if c.isBreak then ⟨c.line + 1, 0⟩ else ⟨c.line, c.column + 1⟩

/-- The text of some cells. -/
def textOf (cells : List Cell) : Bytes := cells.flatMap fun c => Utf8.encode c.code

/-- Whether a space, a tab, the end of the line or the end of the text comes next. -/
def blankNext : List Cell → Bool
  | [] => true
  | c :: _ => c.isSpace || c.isBreak

/-- Whether a line that marks the bounds of documents begins here: three equal characters in the
    first column and a blank. -/
def marksDocument (sign : Char) : List Cell → Bool
  | a :: b :: c :: rest =>
    a.column = 0 && a.holds sign && b.holds sign && c.holds sign && blankNext rest
  | _ => false

/-- Whether a document begins or ends here by a mark. -/
def atMark (cells : List Cell) : Bool := marksDocument '-' cells || marksDocument '.' cells

/-! ### Between tokens -/

/-- Whether nothing but blanks stands before the next comment. -/
def commentNext (cells : List Cell) : Bool :=
  (cells.dropWhile fun c => c.isSpace || c.isBreak).head?.any (·.holds '#')

/-- Where a gap between tokens has come to: among blanks, inside a comment, or among blanks from
    one comment to the next, where tabs do no harm. -/
inductive GapState where
  | blank
  | comment
  | toComment
  deriving DecidableEq, Repr

/-- Skips blanks, line ends and comments up to the next token. Tabs are skipped in brackets and
    where no key may begin; outside of brackets a key may begin once a line has ended. -/
def skipGap (bracketed : Bool) : GapState → (keyAllowed : Bool) → List Cell → Bool × List Cell
  | _, keyAllowed, [] => (keyAllowed, [])
  | .comment, keyAllowed, c :: rest =>
    if !c.isBreak then skipGap bracketed .comment keyAllowed rest
    else if commentNext rest then skipGap bracketed .toComment keyAllowed rest
    else skipGap bracketed .blank (keyAllowed || !bracketed) rest
  | .toComment, keyAllowed, c :: rest =>
    skipGap bracketed (if c.holds '#' then .comment else .toComment) keyAllowed rest
  | .blank, keyAllowed, c :: rest =>
    if c.isBreak then skipGap bracketed .blank (keyAllowed || !bracketed) rest
    else if c.holds '#' then skipGap bracketed .comment keyAllowed rest
    else if c.holds ' ' || (c.isTab && (bracketed || !keyAllowed)) ||
        (c.code = orderMark && c.column = 0) then skipGap bracketed .blank keyAllowed rest
    else (keyAllowed, c :: rest)

/-- Skips a comment that follows on the same line. -/
def skipComment (cells : List Cell) : List Cell :=
  let after := cells.dropWhile Cell.isSpace
  if after.head?.any (·.holds '#') then after.dropWhile fun c => !c.isBreak else cells

end KustoFacts.Yaml
