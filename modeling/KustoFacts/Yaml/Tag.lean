import KustoFacts.Yaml.Cell
import KustoFacts.Yaml.Token

/-!
    Names of anchors, tags and directives. A tag is written in full between angle brackets, or as a
    handle and a suffix, where the handle is one exclamation mark, or two with a name or nothing
    between them. -/

namespace KustoFacts.Yaml

/-- The name of an anchor or an alias after its mark. A blank or a sign that cannot belong to a
    name has to follow. -/
def readName (cells : List Cell) : Option (Bytes × List Cell) :=
  let name := cells.takeWhile Cell.isWord
  let rest := cells.dropWhile Cell.isWord
  if !name.isEmpty && (blankNext rest || rest.head?.any (·.oneOf "?:,]\x7d%@`")) then
    some (textOf name, rest)
  else none

/-! ### Tags -/

/-- Whether a cell may stand in the suffix of a tag as it is. -/
def isUriCell (c : Cell) : Bool := c.isWord || c.oneOf ";/?:@&=+$,.!~*'()[]"

/-- The byte that two hexadecimal digits spell. -/
def octet? (high low : Cell) : Option Nat := do
  let h ← hexValue? (← high.ascii?)
  let l ← hexValue? (← low.ascii?)
  return 16 * h + l

/-- The number of bytes after the first byte of a code point; `none` for a byte that begins no code
    point. -/
def furtherBytes? (octet : Nat) : Option Nat :=
  if octet < 0x80 then some 0
  else if 0xC0 ≤ octet && octet < 0xE0 then some 1
  else if 0xE0 ≤ octet && octet < 0xF0 then some 2
  else if 0xF0 ≤ octet && octet < 0xF8 then some 3
  else none

/-- Reads the suffix of a tag, in which a percent sign and two digits stand for a byte. `owed`
    counts the bytes that the code point being read still lacks; those read so far are kept latest
    first. -/
def readUri : (owed : Nat) → (done : Bytes) → List Cell → Option (Bytes × List Cell)
  | owed, done, [] => if owed = 0 then some (done.reverse, []) else none
  | owed, done, c :: rest =>
    if c.holds '%' then
      match rest with
      | high :: low :: rest =>
        match octet? high low with
        | none => none
        | some octet =>
          if owed = 0 then
            match furtherBytes? octet with
            | none => none
            | some further => readUri further (octet.toUInt8 :: done) rest
          else if 0x80 ≤ octet && octet < 0xC0 then
            readUri (owed - 1) (octet.toUInt8 :: done) rest
          else none
      | _ => none
    else if owed ≠ 0 then none
    else if isUriCell c then readUri 0 ((Utf8.encode c.code).reverse ++ done) rest
    else some (done.reverse, c :: rest)

/-- A suffix with at least one character. -/
def readSuffix (cells : List Cell) : Option (Bytes × List Cell) := do
  let (uri, rest) ← readUri 0 [] cells
  if uri.isEmpty then none else return (uri, rest)

/-- The exclamation mark. -/
def bang : Bytes := bytes "!"

/-- The name after an exclamation mark, whether a second mark makes it a handle, and the cells
    after it. -/
def readHandle (cells : List Cell) : Bytes × Bool × List Cell :=
  let name := textOf (cells.takeWhile Cell.isWord)
  match cells.dropWhile Cell.isWord with
  | [] => (name, false, [])
  | c :: rest => if c.holds '!' then (name, true, rest) else (name, false, c :: rest)

/-- The handle and suffix of a tag after its first exclamation mark. A tag in full has no handle,
    and neither has a mark alone. -/
def readTag (cells : List Cell) : Option (Bytes × Bytes × List Cell) := do
  let (handle, suffix, rest) ←
    if cells.head?.any (·.holds '<') then
      match ← readSuffix cells.tail with
      | (suffix, c :: rest) => if c.holds '>' then some ([], suffix, rest) else none
      | (_, []) => none
    else
      match readHandle cells with
      | (name, true, rest) =>
        (readSuffix rest).map fun (suffix, rest) => (bang ++ name ++ bang, suffix, rest)
      | (name, false, rest) => do
        let (more, rest) ← readUri 0 name.reverse rest
        if more.isEmpty then some ([], bang, rest) else some (bang, more, rest)
  if blankNext rest then return (handle, suffix, rest) else none

/-! ### Directives -/

/-- A number of one or two digits. -/
def readVersionPart (cells : List Cell) : Option (Nat × List Cell) :=
  let isDigitCell (c : Cell) : Bool := c.ascii?.any isDigit
  let digits := cells.takeWhile isDigitCell
  if digits.isEmpty || 2 < digits.length then none
  else
    some (digits.foldl (fun n c => 10 * n + (c.code - 0x30)) 0, cells.dropWhile isDigitCell)

/-- The token of a directive that names a version. -/
def readVersion (cells : List Cell) : Option (Token × List Cell) := do
  let (major, rest) ← readVersionPart (cells.dropWhile Cell.isSpace)
  match rest with
  | [] => none
  | c :: rest =>
    if !c.holds '.' then none
    let (minor, rest) ← readVersionPart rest
    return (.version major minor, rest)

/-- The token of a directive that declares a handle. -/
def readTagHandle (cells : List Cell) : Option (Token × List Cell) := do
  match cells.dropWhile Cell.isSpace with
  | [] => none
  | c :: rest =>
    if !c.holds '!' then none
    let (handle, rest) ←
      match readHandle rest with
      | (name, true, rest) => some (bang ++ name ++ bang, rest)
      | ([], false, rest) => some (bang, rest)
      | (_ :: _, false, _) => none
    if !rest.head?.any Cell.isSpace then none
    let (stem, rest) ← readSuffix (rest.dropWhile Cell.isSpace)
    if blankNext rest then return (.tagHandle handle stem, rest) else none

/-- The token of a directive after its percent sign, with the cells of the lines below. -/
def readDirective (cells : List Cell) : Option (Token × List Cell) := do
  let name := textOf (cells.takeWhile Cell.isWord)
  let rest := cells.dropWhile Cell.isWord
  if !blankNext rest then none
  let (token, rest) ←
    if name = bytes "YAML" then readVersion rest
    else if name = bytes "TAG" then readTagHandle rest
    else none
  match skipComment (rest.dropWhile Cell.isSpace) with
  | [] => return (token, [])
  | c :: rest => if c.isBreak then return (token, rest) else none

end KustoFacts.Yaml
