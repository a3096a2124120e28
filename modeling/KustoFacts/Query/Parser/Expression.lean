import KustoFacts.Query.Parser.Goal
import KustoFacts.Query.Parser.Words

/-!
    Expressions. Infix operators are read by climbing their levels: the right side of an operator
    is an expression of operators that bind strictly tighter, so operators of one level lean to the
    left. A name may be given to an expression by an equals sign. -/

namespace KustoFacts.Parser

/-! ### Infix operators -/

/-- The rest of `Expr between (Low .. High)`, from the word `between` or `!between` on. -/
def betweenTail (g : Grammar) (first : Token) (left : Node) (op : Bytes) : Parser Node := do
  advance
  expect .leftParen
  let low ← g.reach (.binary 0)
  expect .dotDot
  let high ← g.reach (.binary 0)
  expect .rightParen
  build first (.between op) [left.inSlot .expression, low.inSlot .low, high.inSlot .high]

/-- The spelling of an infix operator, of which `matches regex` has two words; the first word is
    already consumed. -/
def operatorText (op : Token) : Parser Bytes := do
  if op.text = bytes "matches" then
    if ← seesWord (bytes "regex") then
      advance
      return bytes "matches regex"
    refuse .expectedRegex
  return op.text

/-- One round of reading infix operators that bind tighter than `level`. -/
def binaryRound (g : Grammar) (level : Nat) (first : Token) (left : Node) :
    Parser (Round Node Node) := do
  let op ← current
  if infixLevel op ≤ level then return .done left
  -- a star that nothing follows is a wildcard of a pattern, not a product
  if op.kind = .star && !startsOperand (← peek) then return .done left
  if op.text = bytes "between" || op.text = bytes "!between" then
    return .again (← betweenTail g first left op.text)
  advance
  let text ← operatorText op
  let right ← g.reach (.binary (infixLevel op))
  return .again (← build first (.binary text) [left.inSlot .left, right.inSlot .right])

/-- An expression of operators that bind tighter than `level`. -/
def binary (g : Grammar) (level : Nat) : Parser Node := do
  let first ← current
  let left ← g.reach .unary
  loop (binaryRound g level first) g.bound left

/-- An expression without pipes. -/
def expression (g : Grammar) : Parser Node := binary g 0

/-! ### Named expressions -/

/-- A name reference as the name it declares; `none` for any other node. -/
def asDeclaration? : Node → Option Node
  | .mk role (.nameReference name _) span first _ =>
    some (.mk role (.nameDeclaration name) span first [])
  | _ => none

/-- The names that stand on the left of an equals sign: one name, or a list of names, in any number
    of parentheses. -/
def declaredNames? : Node → Option (List Node)
  | .mk _ (.nameReference name _) span first _ =>
    some [.mk .none (.nameDeclaration name) span first []]
  | .mk _ .parenthesized _ _ [inner] => declaredNames? inner
  | .mk _ .list _ _ items => items.mapM asDeclaration?
  | _ => none

/-- An expression, or names and the expression they are given to. -/
def namedOrExpression (g : Grammar) : Parser Node := do
  let first ← current
  let left ← expression g
  let t ← current
  if t.kind ≠ .assign then return left
  match declaredNames? left with
  | none => refuse (.unexpectedToken t.text)
  | some names =>
    advance
    let value ← expression g
    build first .namedExpression (names.map (·.inSlot .name) ++ [value.inSlot .value])

/-- The value after an equals sign, if there is one. -/
def assigned (g : Grammar) : Parser (List Node) := do
  if ← accept .assign then
    let value ← expression g
    return [value.inSlot .value]
  return []

/-! ### Types and names -/

/-- The name of a scalar type. -/
def typeName : Parser Bytes := do
  let t ← current
  if t.kind = .word then
    advance
    return t.text
  refuse .expectedTypeName

/-- One element of an operator's body; a name with a type is a typed column. -/
def operatorArgument (g : Grammar) : Parser Node := do
  let first ← current
  let node ← namedOrExpression g
  if ← accept .colon then
    let type ← typeName
    let name := (asDeclaration? node).getD node
    build first (.typedColumn type) [name.inSlot .name]
  else return node

end KustoFacts.Parser
