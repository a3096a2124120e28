import KustoFacts.Yaml.Scalar
import KustoFacts.Yaml.Tag

/-!
    A YAML stream as its tokens, read as far as they are needed. What makes a node a key is the colon
    after it, so that tokens wait in a queue: a token that may turn out to begin a key is held back
    until the colon has come or can no longer come, and every token is held back until two more
    wait behind it. Faults therefore show in what lies ahead of the token asked for, and only
    there. -/

namespace KustoFacts.Yaml

/-- A place where a key may have begun, on one level of brackets. -/
structure KeyPlace where
  /-- The number of brackets around it. -/
  level : Nat
  /-- Whether it may still be a key. -/
  possible : Bool
  /-- Whether it has to be one, because a block of keys goes on here. -/
  required : Bool
  /-- The number of its first token. -/
  token : Nat
  place : Place
  deriving DecidableEq, Repr

/-- How far a stream has been read. -/
structure Scan where
  /-- The cells not read yet. -/
  cells : List Cell
  /-- The place after the last cell. -/
  ending : Place
  /-- The tokens that wait. -/
  queue : List Token
  /-- The number of tokens given out. -/
  given : Nat
  /-- One more than the column of the innermost block; 0 outside of blocks. -/
  margin : Nat
  /-- The margins of the blocks around it, innermost first. -/
  outer : List Nat
  /-- Whether a key may begin at the next token. -/
  keyAllowed : Bool
  /-- Where a key may have begun on the innermost level of brackets. -/
  key : KeyPlace
  /-- The same for the levels around it, innermost first. -/
  outerKeys : List KeyPlace
  /-- The tokens to be held back, by number, with the level of their key; the first of a number
      counts. -/
  held : List (Nat × Nat)
  /-- A number of tokens that the stream does not have. -/
  bound : Nat
  deriving DecidableEq, Repr

namespace Scan

/-- How deep brackets or blocks may stand inside each other. -/
def deepest : Nat := 10000

/-- The state before the first token. -/
def start (cells : List Cell) : Scan :=
  { cells := cells, ending := endOf cells, queue := [.streamStart], given := 0, margin := 0,
    outer := [], keyAllowed := true, key := ⟨0, false, false, 0, ⟨0, 0⟩⟩, outerKeys := [],
    held := [], bound := 4 * cells.length + 8 }

/-- The place of the next cell. -/
def place (s : Scan) : Place :=
  match s.cells with
  | [] => s.ending
  | c :: _ => ⟨c.line, c.column⟩

/-- The number of brackets around the next cell. -/
def level (s : Scan) : Nat := s.key.level

/-- Whether the next cell stands in brackets. -/
def bracketed (s : Scan) : Bool := s.level ≠ 0

/-- The number of the next token to be queued. -/
def nextNumber (s : Scan) : Nat := s.given + s.queue.length

/-- A token put at the end of the queue. -/
def push (s : Scan) (t : Token) : Scan := { s with queue := s.queue ++ [t] }

/-- A token put before the one with a given number, or at the end if that has been given out. -/
def pushBefore (s : Scan) (number : Nat) (t : Token) : Scan :=
  if number < s.given then s.push t
  else
    let i := number - s.given
    { s with queue := s.queue.take i ++ t :: s.queue.drop i }

/-! ### Keys -/

/-- The tokens held back without a given one. -/
def release (s : Scan) (number : Nat) : Scan :=
  { s with held := s.held.filter fun h => h.1 ≠ number }

/-- The end of a place where a key may have begun; `none` if a key was required there. -/
def dropKey (s : Scan) : Option Scan :=
  if !s.key.possible then some s
  else if s.key.required then none
  else some { s.release s.key.token with key := { s.key with possible := false } }

/-- Takes note of the next cell as the place where a key may begin, if one may. -/
def noteKey (s : Scan) : Option Scan :=
  if !s.keyAllowed then some s
  else
    s.dropKey.map fun d =>
      let required := !s.bracketed && s.margin = s.place.column + 1
      { d with
        key := ⟨s.level, true, required, s.nextNumber, s.place⟩
        held := (s.nextNumber, s.level) :: d.held }

/-- Whether the colon of a key can still come: it stands on the same line, and not farther from the
    beginning than 1024 columns. -/
def inReach (s : Scan) (k : KeyPlace) : Bool :=
  !(k.place.line < s.place.line || k.place.column + 1024 < s.place.column)

/-- Whether a place can still turn out to be a key, and what is known of it then; `none` if a
    required key can no longer come. -/
def checkKey (s : Scan) (k : KeyPlace) : Option (Bool × KeyPlace) :=
  if !k.possible then some (false, k)
  else if s.inReach k then some (true, k)
  else if k.required then none
  else some (false, { k with possible := false })

/-! ### Levels -/

/-- Closes blocks until the margin is within a limit. -/
def closeBlocks (limit : Nat) (s : Scan) : Scan :=
  if s.bracketed then s
  else
    let (margin, outer, closed) := go s.margin s.outer 0
    { s with
      margin := margin, outer := outer, queue := s.queue ++ List.replicate closed .blockEnd }
where
  /-- The margin, those around it and the number of blocks closed. -/
  go (margin : Nat) : List Nat → (closed : Nat) → Nat × List Nat × Nat
    | [], closed => (margin, [], closed)
    | m :: outer, closed =>
      if limit < margin then go m outer (closed + 1) else (margin, m :: outer, closed)

/-- Opens a block in a column unless one stands there or farther in; its first token is queued by
    `queue`. -/
def openBlock (column : Nat) (queue : Scan → Scan) (s : Scan) : Option Scan :=
  if s.bracketed || column < s.margin then some s
  else if deepest ≤ s.outer.length then none
  else some (queue { s with margin := column + 1, outer := s.margin :: s.outer })

/-- One more level of brackets. -/
def openBrackets (s : Scan) : Option Scan :=
  if deepest ≤ s.level then none
  else
    some { s with
      key := ⟨s.level + 1, false, false, s.nextNumber, s.place⟩
      outerKeys := s.key :: s.outerKeys }

/-- One level of brackets less. -/
def closeBrackets (s : Scan) : Scan :=
  match s.outerKeys with
  | [] => s
  | k :: outer => { s.release s.key.token with key := k, outerKeys := outer }

/-! ### Single tokens

Each of these queues the token that begins with the next cell. -/

/-- The state with some cells read. -/
def skip (n : Nat) (s : Scan) : Scan := { s with cells := s.cells.drop n }

/-- The state with a permission for keys. -/
def allowKey (b : Bool) (s : Scan) : Scan := { s with keyAllowed := b }

/-- The end of all blocks and of the last place for a key, before a token that ends a document. -/
def endContent (s : Scan) : Option Scan := ((s.closeBlocks 0).dropKey).map (allowKey false)

/-- The end of the stream, which stands on a line of its own. -/
def fetchEnd (s : Scan) : Option Scan :=
  let ending := if s.ending.column = 0 then s.ending else ⟨s.ending.line + 1, 0⟩
  ({ s with ending := ending }.endContent).map (push · .streamEnd)

/-- A directive. -/
def fetchDirective (s : Scan) : Option Scan := do
  let s ← s.endContent
  let (token, rest) ← readDirective s.cells.tail
  return { s with cells := rest }.push token

/-- A mark of a document. -/
def fetchMark (token : Token) (s : Scan) : Option Scan :=
  s.endContent.map fun s => (s.skip 3).push token

/-- An opening bracket. -/
def fetchOpen (token : Token) (s : Scan) : Option Scan := do
  let s ← (← s.noteKey).openBrackets
  return ((s.allowKey true).skip 1).push token

/-- A closing bracket. -/
def fetchClose (token : Token) (s : Scan) : Option Scan := do
  let s := (← s.dropKey).closeBrackets
  return ((s.allowKey false).skip 1).push token

/-- A comma. -/
def fetchComma (s : Scan) : Option Scan :=
  s.dropKey.map fun s => ((s.allowKey true).skip 1).push .comma

/-- The dash before an entry of a list. -/
def fetchDash (s : Scan) : Option Scan := do
  if !s.bracketed && !s.keyAllowed then none
  let s ← s.openBlock s.place.column (push · .blockListStart)
  let s ← s.dropKey
  return ((s.allowKey true).skip 1).push .dash

/-- The mark of a key. -/
def fetchKey (s : Scan) : Option Scan := do
  if !s.bracketed && !s.keyAllowed then none
  let s ← s.openBlock s.place.column (push · .blockMapStart)
  let s ← s.dropKey
  return ((s.allowKey (!s.bracketed)).skip 1).push .key

/-- A colon. If it makes a key of what was noted, the token of the key goes before that. -/
def fetchValue (s : Scan) : Option Scan := do
  let (valid, key) ← s.checkKey s.key
  let s := { s with key := key }
  let s ←
    if valid then do
      let s := s.pushBefore key.token .key
      let s ← s.openBlock key.place.column (pushBefore · key.token .blockMapStart)
      some ({ s.release key.token with key := { key with possible := false } }.allowKey false)
    else if s.bracketed then some (s.allowKey false)
    else if !s.keyAllowed then none
    else (s.openBlock s.place.column (push · .blockMapStart)).map (allowKey true)
  return (s.skip 1).push .value

/-- An anchor or an alias. -/
def fetchName (token : Bytes → Token) (s : Scan) : Option Scan := do
  let s ← s.noteKey
  let (name, rest) ← readName s.cells.tail
  return ({ s with cells := rest }.allowKey false).push (token name)

/-- A tag. -/
def fetchTag (s : Scan) : Option Scan := do
  let s ← s.noteKey
  let (handle, suffix, rest) ← readTag s.cells.tail
  return ({ s with cells := rest }.allowKey false).push (.tag handle suffix)

/-- The token of a scalar of code points. -/
def scalarToken (plain : Bool) (codes : List Nat) : Token :=
  .scalar plain (codes.flatMap Utf8.encode)

/-- A block scalar. -/
def fetchBlockScalar (literal : Bool) (s : Scan) : Option Scan := do
  let s ← s.dropKey
  let (codes, rest) ← readBlockScalar literal s.margin s.cells.tail
  return ({ s with cells := rest }.allowKey true).push (scalarToken false codes)

/-- A quoted scalar. -/
def fetchQuoted (single : Bool) (s : Scan) : Option Scan := do
  let s ← s.noteKey
  let (codes, rest) ←
    if single then readSingle 0 [] .none s.cells.tail else readDouble 0 [] .none s.cells.tail
  return ({ s with cells := rest }.allowKey false).push (scalarToken false codes)

/-- A plain scalar that begins with a given cell. If a line has ended after it, a key may begin. -/
def fetchPlain (c : Cell) (s : Scan) : Option (Scan × Bool) := do
  let s ← s.noteKey
  let (codes, broken, rest) ← readPlain s.bracketed s.margin [c.code] .none s.cells.tail
  return (({ s with cells := rest }.allowKey broken).push (scalarToken true codes), broken)

/-- The state after a token behind which a comment may stand on the same line. -/
def withComment (s : Scan) : Scan := { s with cells := skipComment s.cells }

/-! ### The next token -/

/-- Queues the token that begins with a given cell, which is no mark of a document. -/
def fetchToken (c : Cell) (s : Scan) : Option Scan :=
  let blank := blankNext s.cells.tail
  let commented (t : Option Scan) : Option Scan := t.map withComment
  if c.holds '[' then commented (s.fetchOpen .openList)
  else if c.holds '\x7b' then commented (s.fetchOpen .openMap)
  else if c.holds ']' then commented (s.fetchClose .closeList)
  else if c.holds '\x7d' then commented (s.fetchClose .closeMap)
  else if c.holds ',' then commented s.fetchComma
  else if c.holds '-' && blank then s.fetchDash
  else if c.holds '?' && (s.bracketed || blank) then commented s.fetchKey
  else if c.holds ':' && (s.bracketed || blank) then commented s.fetchValue
  else if c.holds '*' then commented (s.fetchName .alias)
  else if c.holds '&' then commented (s.fetchName .anchor)
  else if c.holds '!' then commented s.fetchTag
  else if c.oneOf "|>" && !s.bracketed then s.fetchBlockScalar (c.holds '|')
  else if c.code = singleQuote.toNat then commented (s.fetchQuoted true)
  else if c.holds '"' then commented (s.fetchQuoted false)
  else if beginsPlain s.bracketed s.cells then
    (s.fetchPlain c).map fun (s, broken) => if broken then s else s.withComment
  else none

/-- Queues at least one more token; `none` if there is a fault in the stream. -/
def fetch (s : Scan) : Option Scan :=
  let (keyAllowed, cells) := skipGap s.bracketed .blank s.keyAllowed s.cells
  let s := { s with keyAllowed := keyAllowed, cells := cells }
  let s := s.closeBlocks (s.place.column + 1)
  match s.cells with
  | [] => s.fetchEnd
  | c :: _ =>
    if c.holds '%' && c.column = 0 then s.fetchDirective
    else if marksDocument '-' s.cells then s.fetchMark .documentStart
    else if marksDocument '.' s.cells then s.fetchMark .documentEnd
    else s.fetchToken c

/-! ### Giving out -/

/-- What is known of the keys with the one on a given level changed. -/
def setKey (s : Scan) (level : Nat) (k : KeyPlace) : Scan :=
  if level = s.level then { s with key := k }
  else { s with outerKeys := s.outerKeys.set (s.level - 1 - level) k }

/-- What is known of the key on a given level. -/
def keyAt? (s : Scan) (level : Nat) : Option KeyPlace :=
  if level = s.level then some s.key
  else if level < s.level then s.outerKeys[s.level - 1 - level]?
  else none

/-- Whether the first token of the queue has to wait for a colon, with what is known then. -/
def waits (s : Scan) : Option (Bool × Scan) :=
  match s.held.lookup s.given with
  | none => some (false, s)
  | some level =>
    match s.keyAt? level with
    | none => some (false, s)
    | some k => (s.checkKey k).map fun (valid, k) => (valid, s.setKey level k)

/-- Queues tokens until the first can be given out. Each round takes a character or comes to the
    end of the stream, at which nothing waits any longer. -/
def fill : (fuel : Nat) → Scan → Option Scan
  | 0, _ => none
  | fuel + 1, s => do
    if 2 < s.queue.length then
      let (wait, s) ← s.waits
      if wait then fill fuel (← s.fetch) else return s
    else fill fuel (← s.fetch)

/-- The next token, with the state in which it waits. -/
def peek (s : Scan) : Option (Token × Scan) := do
  let s ← fill s.bound s
  let t ← s.queue.head?
  return (t, s)

/-- The state after the next token, about which nothing needs to be known any longer. -/
def next (s : Scan) : Scan :=
  { s with
    queue := s.queue.tail, given := s.given + 1, held := s.held.filter fun h => s.given < h.1 }

end Scan
end KustoFacts.Yaml
