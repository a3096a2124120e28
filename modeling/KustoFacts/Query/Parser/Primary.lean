import KustoFacts.Query.Parser.Operator
import KustoFacts.Query.Unquoted

/-!
    The operands of expressions: constants, names, calls, lists and parentheses, with the members
    and elements selected from them, and signs in front. -/

namespace KustoFacts.Parser

/-- An item inside parentheses, where pipes, named expressions and operators are allowed. -/
def parenItem (g : Grammar) : Parser Node := do
  if ← startsSubquery then subquery g
  else
    let first ← current
    let head ← if startsLeading first (← peek) then leading g else namedOrExpression g
    pipes g first head

/-- A call with its arguments. -/
def call (g : Grammar) : Parser Node := do
  let first ← current
  advance
  advance
  let arguments ← itemsUntil g.bound .rightParen (parenItem g)
  expect .rightParen
  build first (.functionCall first.text) (arguments.map (·.inSlot .argument))

/-- A name in brackets and quotes. -/
def bracketName : Parser Node := do
  let first ← current
  advance
  let quoted ← current
  advance
  expect .rightBracket
  build first (.nameReference (Unquoted.value quoted.text) .unknown) []

/-- A list in brackets. -/
def bracketList (g : Grammar) : Parser Node := do
  let first ← current
  advance
  let items ← itemsUntil g.bound .rightBracket (expression g)
  expect .rightBracket
  build first .list (items.map (·.inSlot .element))

/-- One item in parentheses, or a list of items. -/
def parenthesized (g : Grammar) : Parser Node := do
  let first ← current
  advance
  let items ← itemsUntil g.bound .rightParen (parenItem g)
  expect .rightParen
  match items with
  | [item] => build first .parenthesized [item.inSlot .expression]
  | items => build first .list (items.map (·.inSlot .element))

/-- Whether a name before a parenthesis is called. A gap before the parenthesis and an operator
    after it make it the beginning of a subquery instead. -/
def startsCall (name paren after : Token) : Bool :=
  paren.kind = .leftParen &&
    (paren.pos.offset = name.stop || !(after.kind = .word && pipeOperators.contains after.text))

/-- Whether a name is followed by a star that touches it and is no product. -/
def startsWildcard (name star after : Token) : Bool :=
  if star.kind ≠ .star || star.pos.offset ≠ name.stop then false
  else
    match after.kind with
    | .number | .literal | .leftParen => false
    | .word => after.pos.offset = star.stop
    | _ => true

/-- One round of reading a name pattern. -/
def wildcardRound (pattern : Bytes) : Parser (Round Bytes Bytes) := do
  let t ← current
  if (t.kind = .star || t.kind = .word) && t.pos.offset = (← state).prevEnd then
    advance
    return .again (pattern ++ t.text)
  return .done pattern

/-- A name pattern: a name and the stars and words that touch it and each other. -/
def wildcard (g : Grammar) : Parser Node := do
  let first ← current
  advance
  let pattern ← loop wildcardRound g.bound first.text
  build first (.wildcardName pattern) []

/-- One round of consuming strings. -/
def stringRound (_ : Unit) : Parser (Round Unit Unit) := do
  if ← accept .string then return .again ()
  return .done ()

/-- Consumes strings that stand next to each other. -/
def adjacentStrings (g : Grammar) : Parser Unit := loop stringRound g.bound ()

/-- An operand without selectors. -/
def primary (g : Grammar) : Parser Node := do
  let first ← current
  match first.kind with
  | .number | .literal =>
    advance
    build first .literal []
  | .string =>
    advance
    adjacentStrings g
    build first .literal []
  | .word =>
    let next ← peek
    let third ← peekSecond
    if first.text = bytes "true" || first.text = bytes "false" then
      advance
      build first .literal []
    else if startsCall first next third then call g
    else if startsWildcard first next third then wildcard g
    else
      advance
      build first (.nameReference first.text .unknown) []
  | .leftBracket =>
    if (← peek).kind = .string && (← peekSecond).kind = .rightBracket then bracketName
    else bracketList g
  | .leftParen => parenthesized g
  | .star =>
    advance
    build first .star []
  | _ => refuse .expectedExpression

/-- What follows a dot: a name, a call or a name in brackets. -/
def selector (g : Grammar) : Parser Node := do
  let first ← current
  if first.kind = .leftBracket then bracketName
  else if (← peek).kind = .leftParen then call g
  else
    advance
    build first (.nameReference first.text .unknown) []

/-- One round of reading selectors. A bracket selects only if it touches what stands before it. -/
def postfixRound (g : Grammar) (first : Token) (node : Node) : Parser (Round Node Node) := do
  let t ← current
  let next ← peek
  if t.kind = .dot && (next.kind = .word || next.kind = .leftBracket) then
    advance
    let member ← selector g
    return .again (← build first .path [node.inSlot .expression, member.inSlot .selector])
  if t.kind = .leftBracket && t.pos.offset = (← state).prevEnd then
    advance
    let index ← expression g
    expect .rightBracket
    return .again (← build first .elementAccess [node.inSlot .expression, index.inSlot .index])
  return .done node

/-- An operand with its selectors. -/
def selected (g : Grammar) : Parser Node := do
  let first ← current
  let node ← primary g
  loop (postfixRound g first) g.bound node

/-- An operand with its signs. -/
def signed (g : Grammar) : Parser Node := do
  let first ← current
  if first.kind = .minus || first.kind = .plus then
    advance
    let operand ← g.reach .unary
    build first (.unary first.text) [operand.inSlot .expression]
  else selected g

end KustoFacts.Parser
