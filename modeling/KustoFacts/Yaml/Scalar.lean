import KustoFacts.Yaml.Cell

/-!
    Reading YAML scalars. Over several lines a plain or quoted scalar is folded: one line end is a
    space, and of more than one all but the first are kept. A block scalar is a number of lines
    with a common indentation. Each function returns the scalar's code points and the cells after
    it. -/

namespace KustoFacts.Yaml

/-- Spaces and line ends met inside a scalar that wait for what comes next. -/
structure Fold where
  /-- Spaces before the first line end, latest first. -/
  spaces : List Nat
  /-- Whether a line has ended. -/
  broken : Bool
  /-- The first line end, unless it was escaped. -/
  first : Option Nat
  /-- Further line ends, latest first. -/
  more : List Nat
  deriving DecidableEq, Repr

namespace Fold

/-- Nothing waits. -/
def none : Fold := ⟨[], false, Option.none, []⟩

/-- One more space; on a further line it does not count. -/
def space (f : Fold) (code : Nat) : Fold :=
  if f.broken then f else { f with spaces := code :: f.spaces }

/-- One more line end. -/
def lineEnd (f : Fold) (code : Nat) : Fold :=
  if f.broken then { f with more := code :: f.more } else ⟨[], true, some code, []⟩

/-- A line end that was escaped. -/
def escaped : Fold := ⟨[], true, Option.none, []⟩

/-- Whether anything waits. -/
def isWaiting (f : Fold) : Bool := f.broken || !f.spaces.isEmpty

/-- What the waiting spaces and line ends come to. -/
def text (f : Fold) : List Nat :=
  if !f.broken then f.spaces.reverse
  else
    match f.first with
    | some code =>
      if code ≠ 0x0A then code :: f.more.reverse
      else if f.more.isEmpty then [0x20]
      else f.more.reverse
    | Option.none => f.more.reverse

end Fold

/-- A scalar read so far, latest first, with what waits put before the next character. -/
def joined (text : List Nat) (fold : Fold) : List Nat := fold.text.reverse ++ text

/-! ### Plain scalars -/

/-- Whether a plain scalar can begin here. -/
def beginsPlain (bracketed : Bool) : List Cell → Bool
  | [] => false
  | c :: rest =>
    if c.isSpace || c.isBreak then false
    else if c.holds '-' then !blankNext rest
    else if c.oneOf "?:" then !bracketed && !blankNext rest
    else !c.oneOf ",[]\x7b\x7d#&*!|>'\"%@`"

/-- Whether a plain scalar ends before this cell, which is not blank. -/
def endsPlain (bracketed : Bool) (c : Cell) (rest : List Cell) : Bool :=
  (c.holds ':' && blankNext rest) || (bracketed && c.oneOf ",?[]\x7b\x7d")

/-- Reads on in a plain scalar, whose further lines begin in column `margin` or after it. The
    blanks after the scalar are passed over; the result tells also whether a line ended among
    them. -/
def readPlain (bracketed : Bool) (margin : Nat) :
    (text : List Nat) → Fold → List Cell → Option (List Nat × Bool × List Cell)
  | text, fold, [] => some (text.reverse, fold.broken, [])
  | text, fold, c :: rest =>
    if c.isBreak then readPlain bracketed margin text (fold.lineEnd c.code) rest
    else if c.isSpace then
      if fold.broken && c.isTab && c.column < margin then none
      else readPlain bracketed margin text (fold.space c.code) rest
    else if (fold.isWaiting && c.holds '#') || (fold.broken && !bracketed && c.column < margin) ||
        (fold.broken && atMark (c :: rest)) || endsPlain bracketed c rest then
      some (text.reverse, fold.broken, c :: rest)
    else readPlain bracketed margin (c.code :: joined text fold) .none rest

/-! ### Quoted scalars -/

/-- Reads on in a scalar in single quotes, inside of which a quote is written twice. `skip` cells
    have been read already. -/
def readSingle : (skip : Nat) → (text : List Nat) → Fold → List Cell → Option (List Nat × List Cell)
  | _, _, _, [] => none
  | skip + 1, text, fold, _ :: rest => readSingle skip text fold rest
  | 0, text, fold, c :: rest =>
    if c.isBreak then readSingle 0 text (fold.lineEnd c.code) rest
    else if c.isSpace then readSingle 0 text (fold.space c.code) rest
    else if atMark (c :: rest) then none
    else if c.code = singleQuote.toNat then
      match rest with
      | d :: _ =>
        if d.code = singleQuote.toNat then readSingle 1 (d.code :: joined text fold) .none rest
        else some ((joined text fold).reverse, rest)
      | [] => some ((joined text fold).reverse, [])
    else readSingle 0 (c.code :: joined text fold) .none rest

/-- The character that an escape of one letter stands for. -/
def escapeCode? (c : Cell) : Option Nat :=
  let table : List (Char × Nat) :=
    [('0', 0x00), ('a', 0x07), ('b', 0x08), ('t', 0x09), ('\t', 0x09), ('n', 0x0A), ('v', 0x0B),
      ('f', 0x0C), ('r', 0x0D), ('e', 0x1B), (' ', 0x20), ('"', 0x22), ('\\', 0x5C), ('N', 0x85),
      ('_', 0xA0), ('L', 0x2028), ('P', 0x2029)]
  if c.code = singleQuote.toNat then some c.code
  else (table.find? fun e => c.holds e.1).map (·.2)

/-- The number of hexadecimal digits that an escape announces. -/
def escapeWidth? (c : Cell) : Option Nat :=
  if c.holds 'x' then some 2 else if c.holds 'u' then some 4 else if c.holds 'U' then some 8
  else none

/-- The code point that hexadecimal digits spell. -/
def hexCode? (digits : List Cell) : Option Nat := do
  let values ← digits.mapM fun d => if d.code < 0x80 then hexValue? d.code.toUInt8 else none
  let code := values.foldl (fun n v => 16 * n + v) 0
  if code ≤ 0x10FFFF && !(0xD800 ≤ code && code ≤ 0xDFFF) then some code else none

/-- What an escape stands for, and the number of cells it takes after its backslash. -/
def escape? : List Cell → Option (Nat × Nat)
  | [] => none
  | c :: rest =>
    match escapeWidth? c with
    | none => (escapeCode? c).map (·, 1)
    | some width =>
      if rest.length < width then none else (hexCode? (rest.take width)).map (·, width + 1)

/-- Reads on in a scalar in double quotes, inside of which a backslash begins an escape. `skip`
    cells have been read already. -/
def readDouble : (skip : Nat) → (text : List Nat) → Fold → List Cell → Option (List Nat × List Cell)
  | _, _, _, [] => none
  | skip + 1, text, fold, _ :: rest => readDouble skip text fold rest
  | 0, text, fold, c :: rest =>
    if c.isBreak then readDouble 0 text (fold.lineEnd c.code) rest
    else if c.isSpace then readDouble 0 text (fold.space c.code) rest
    else if atMark (c :: rest) then none
    else if c.holds '"' then some ((joined text fold).reverse, rest)
    else if c.holds '\\' then
      if rest.head?.any Cell.isBreak then readDouble 1 (joined text fold) .escaped rest
      else
        match escape? rest with
        | none => none
        | some (code, taken) => readDouble taken (code :: joined text fold) .none rest
    else readDouble 0 (c.code :: joined text fold) .none rest

/-! ### Block scalars -/

/-- What becomes of the line ends after the last line of a block scalar. -/
inductive Chomp where
  | strip
  | clip
  | keep
  deriving DecidableEq, Repr

/-- The chomping that a sign asks for. -/
def chomp? (c : Cell) : Option Chomp :=
  if c.holds '+' then some .keep else if c.holds '-' then some .strip else none

/-- The digit from 1 to 9 that a cell holds. -/
def depth? (c : Cell) : Option Nat :=
  c.ascii?.bind fun b => if isDigit b && b ≠ byteOf '0' then some (b.toNat - 0x30) else none

/-- The first line of a block scalar after its mark: the chomping, the depth of its indentation if
    one is given, in either order, and the cells of the lines below. A zero is no depth and
    refused like everything else that is no comment. -/
def readBlockHeader (cells : List Cell) : Option (Chomp × Option Nat × List Cell) :=
  let (chomp, cells) := take chomp? cells
  let (depth, cells) := take depth? cells
  let (chomp, cells) := if chomp.isSome then (chomp, cells) else take chomp? cells
  let after := cells.dropWhile Cell.isSpace
  let after := if after.head?.any (·.holds '#') then after.dropWhile (!·.isBreak) else after
  match after with
  | [] => some (chomp.getD .clip, depth, [])
  | c :: rest => if c.isBreak then some (chomp.getD .clip, depth, rest) else none
where
  /-- What the next cell says, if it says it. -/
  take {α : Type} (read? : Cell → Option α) : List Cell → Option α × List Cell
    | [] => (none, [])
    | c :: rest =>
      match read? c with
      | some a => (some a, rest)
      | none => (none, c :: rest)

/-- A block scalar read so far. -/
structure BlockScalar where
  /-- The column of its lines; 0 as long as it is not known. -/
  indent : Nat
  /-- The greatest column reached before the first line with content. -/
  deepest : Nat
  /-- Whether reading has come to the content of a line. -/
  inLine : Bool
  /-- The end of the last line with content. -/
  lineEnd : Option Nat
  /-- The ends of empty lines after it, latest first. -/
  empty : List Nat
  /-- Whether the last line with content began with a blank. -/
  indented : Bool
  /-- The code points, latest first. -/
  text : List Nat
  deriving DecidableEq, Repr

namespace BlockScalar

/-- The text with the line ends that wait before a line with content. A folded scalar makes a space
    of the end between two lines of which neither begins with a blank. -/
def joined (b : BlockScalar) (literal blank : Bool) : List Nat :=
  let between :=
    if !literal && !b.indented && !blank && b.lineEnd = some 0x0A then
      if b.empty.isEmpty then [0x20] else []
    else b.lineEnd.toList
  b.empty ++ between ++ b.text

/-- The whole text. -/
def chomped (b : BlockScalar) (chomp : Chomp) : List Nat :=
  match chomp with
  | .strip => b.text.reverse
  | .clip => (b.lineEnd.toList ++ b.text).reverse
  | .keep => (b.empty ++ b.lineEnd.toList ++ b.text).reverse

/-- Reads the lines of a block scalar, which begin in column `margin` or after it. -/
def readLines (literal : Bool) (margin : Nat) :
    BlockScalar → List Cell → Option (BlockScalar × List Cell)
  | b, [] => some (b, [])
  | b, c :: rest =>
    if b.inLine then
      if c.isBreak then readLines literal margin { b with inLine := false, lineEnd := c.code } rest
      else readLines literal margin { b with text := c.code :: b.text } rest
    else
      let before := b.indent = 0 || c.column < b.indent
      let deepest := max b.deepest c.column
      if before && c.holds ' ' then readLines literal margin b rest
      else if before && c.isTab then none
      else if c.isBreak then
        readLines literal margin { b with deepest := deepest, empty := c.code :: b.empty } rest
      else
        let indent := if b.indent = 0 then max deepest (max margin 1) else b.indent
        if c.column = indent then
          readLines literal margin
            { indent := indent, deepest := deepest, inLine := true, lineEnd := none, empty := [],
              indented := c.isSpace, text := c.code :: b.joined literal c.isSpace } rest
        else some (b, c :: rest)

end BlockScalar

/-- Reads a block scalar after its mark, inside a block whose lines begin in column `margin` or
    after it. -/
def readBlockScalar (literal : Bool) (margin : Nat) (cells : List Cell) :
    Option (List Nat × List Cell) := do
  let (chomp, depth, rest) ← readBlockHeader cells
  let indent := (depth.map (margin - 1 + ·)).getD 0
  let (b, rest) ← BlockScalar.readLines literal margin ⟨indent, 0, false, none, [], false, []⟩ rest
  return (b.chomped chomp, rest)

end KustoFacts.Yaml
