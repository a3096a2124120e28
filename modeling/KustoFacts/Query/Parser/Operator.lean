import KustoFacts.Query.Parser.Expression

/-!
    Query operators. Joins, lookups and unions have parts of their own. The body of every other
    operator is a flat sequence of expressions, blocks and subqueries, with clause words and commas
    between them. -/

namespace KustoFacts.Parser

/-! ### Named parameters -/

/-- Whether a parameter of an operator starts here. Joins and lookups take any name, other
    operators only their own, and each takes hints. -/
def startsParam (op : Bytes) : Parser Bool := do
  let t ← current
  let next ← peek
  if t.isWord (bytes "hint") && next.kind = .dot then return true
  if t.kind ≠ .word || next.kind ≠ .assign then return false
  if op = bytes "join" || op = bytes "lookup" then return true
  return ((operatorParams.lookup op).getD []).contains t.text

/-- The value of a parameter: one word or constant, or a minus sign and a number. -/
def paramValue : Parser Node := do
  let first ← current
  match first.kind with
  | .word =>
    advance
    if first.text = bytes "true" || first.text = bytes "false" then build first .literal []
    else build first (.nameReference first.text .unknown) []
  | .number | .string | .literal =>
    advance
    build first .literal []
  | .minus =>
    let number ← peek
    if number.kind = .number then
      advance
      advance
      let literal ← build number .literal []
      build first (.unary first.text) [literal.inSlot .expression]
    else refuse .expectedExpression
  | _ => refuse .expectedExpression

/-- A parameter with its value. -/
def namedParameter (bound : Nat) : Parser Node := do
  let first ← current
  advance
  let name ← dottedName bound first.text
  expect .assign
  let value ← paramValue
  build first (.namedParameter name) [value.inSlot .value]

/-- One round of reading the parameters of an operator. -/
def paramRound (g : Grammar) (op : Bytes) (found : List Node) :
    Parser (Round (List Node) (List Node)) := do
  if ← startsParam op then return .again ((← namedParameter g.bound) :: found)
  return .done found.reverse

/-- The parameters of an operator. -/
def params (g : Grammar) (op : Bytes) : Parser (List Node) := loop (paramRound g op) g.bound []

/-- The text of the value of the first parameter called `kind`. -/
def kindText? (source : Bytes) (params : List Node) : Option Bytes := do
  let param ← params.find? (·.form = .namedParameter (bytes "kind"))
  let value ← param.child? .value
  return value.text source

/-! ### Joins, lookups and unions -/

/-- The conditions after `on`, if there are any. -/
def conditions (g : Grammar) : Parser (List Node) := do
  if ← seesWord (bytes "on") then
    advance
    itemsByComma g.bound (expression g)
  else return []

/-- A join or lookup, which differ only in the form of their node. -/
def joinLike (g : Grammar) (form : Option Bytes → Form) : Parser Node := do
  let first ← current
  advance
  let params ← params g first.text
  let right ← expression g
  let conditions ← conditions g
  let kind := kindText? (← state).source params
  build first (form kind)
    (params.map (·.inSlot .parameter) ++ right.inSlot .right ::
      conditions.map (·.inSlot .condition))

/-- A union and its operands. -/
def union (g : Grammar) : Parser Node := do
  let first ← current
  advance
  let params ← params g (bytes "union")
  let operands ← itemsByComma g.bound (expression g)
  build first .union (params.map (·.inSlot .parameter) ++ operands.map (·.inSlot .operand))

/-! ### Pipes and subqueries -/

/-- One operator piped after a source that began at `first`, if there is one. -/
def pipeRound (g : Grammar) (first : Token) (source : Node) : Parser (Round Node Node) := do
  if ← accept .pipe then
    let op ← g.reach .pipeOperator
    return .again (← build first .pipeExpression
      [source.inSlot .expression, op.inSlot .operator])
  return .done source

/-- The operators piped after a source that began at `first`. -/
def pipes (g : Grammar) (first : Token) (source : Node) : Parser Node :=
  loop (pipeRound g first) g.bound source

/-- Whether a parenthesis opens a subquery that begins with an operator. -/
def startsSubquery : Parser Bool := do
  let paren ← current
  let word ← peek
  let third ← peekSecond
  if paren.kind ≠ .leftParen || word.kind ≠ .word || !pipeOperators.contains word.text then return false
  match third.kind with
  | .word | .number | .string | .literal | .leftParen | .star | .minus | .leftBracket | .pipe =>
    return true
  | _ => return false

/-- A subquery in parentheses that begins with an operator. -/
def subquery (g : Grammar) : Parser Node := do
  let first ← current
  advance
  let opFirst ← current
  let op ← g.reach .pipeOperator
  let head ← build opFirst .pipeExpression [op.inSlot .operator]
  let inner ← pipes g opFirst head
  expect .rightParen
  build first .parenthesized [inner.inSlot .expression]

/-- Statements up to a closing brace, which is consumed. -/
def braced (g : Grammar) : Parser Node := do
  let query ← g.reach (.query .rightBrace)
  expect .rightBrace
  return query

/-- A subquery in braces. -/
def block (g : Grammar) : Parser Node := do
  advance
  braced g

/-! ### Operators with a flat body -/

/-- Whether the current token ends an operator's body. -/
def endsBody (t : Token) : Bool :=
  match t.kind with
  | .endOfInput | .pipe | .semicolon | .rightParen | .rightBrace | .rightBracket => true
  | _ => false

/-- Whether a word separates parts of a body, given the token after it. A word that is assigned to,
    selected from or indexed is a name, and `first(` and `last(` are calls. -/
def isClause (t next : Token) : Bool :=
  if t.kind ≠ .word || !clauseWords.contains t.text then false
  else
    match next.kind with
    | .assign | .dot | .leftBracket => false
    | .leftParen => t.text ≠ bytes "first" && t.text ≠ bytes "last"
    | _ => true

/-- The schema and rows of a table given in the query. -/
def schemaAndRows (g : Grammar) : Parser (List Node) := do
  let schemaFirst ← current
  expect .leftParen
  let columns ← itemsUntil g.bound .rightParen (operatorArgument g)
  expect .rightParen
  let schema ← build schemaFirst .list (columns.map (·.inSlot .element))
  let rowsFirst ← current
  expect .leftBracket
  let values ← itemsUntil g.bound .rightBracket (expression g)
  expect .rightBracket
  let rows ← build rowsFirst .list (values.map (·.inSlot .element))
  return [schema, rows]

/-- The table given by an operator whose rows stand in the query. -/
def given (g : Grammar) (keyword : Bytes) : Parser (List Node) :=
  if keyword = bytes "datatable" || keyword = bytes "externaldata" then schemaAndRows g
  else return []

/-- The single sources of a search: the members of a list, or the node itself without its
    parentheses. -/
def sourceList : Node → List Node
  | .mk _ .list _ _ items => items
  | .mk _ .parenthesized _ _ inner => inner
  | n => [n]

/-- The sources after the word `in`. -/
def sources (g : Grammar) : Parser (List Node) := do
  if (← seesWord (bytes "in")) && (← peek).kind = .leftParen then
    advance
    return sourceList (← g.reach .sources)
  return []

/-- The sources that an operator may name. -/
def searched (g : Grammar) (keyword : Bytes) : Parser (List Node) :=
  if keyword = bytes "search" || keyword = bytes "find" then sources g else return []

/-- One round of reading the elements of a body; those read so far are kept latest first. -/
def bodyRound (g : Grammar) (found : List Node) : Parser (Round (List Node) (List Node)) := do
  let t ← current
  if endsBody t then return .done found.reverse
  if t.kind = .comma || isClause t (← peek) then
    advance
    return .again found
  if t.kind = .leftBrace then return .again ((← block g) :: found)
  if ← startsSubquery then return .again ((← subquery g) :: found)
  return .again ((← operatorArgument g) :: found)

/-- The elements of a body after those already found. -/
def body (g : Grammar) (found : List Node) : Parser (List Node) := loop (bodyRound g) g.bound found

/-- An operator without parts of its own. -/
def operator (g : Grammar) : Parser Node := do
  let first ← current
  advance
  let keyword := first.text
  let params ← params g keyword
  let given ← given g keyword
  let sources ← searched g keyword
  let arguments ← body g given.reverse
  if arguments.isEmpty && bodyRequired.contains keyword then refuse .expectedExpression
  build first (.operator keyword)
    (params.map (·.inSlot .parameter) ++ sources.map (·.inSlot .operand) ++
      arguments.map (·.inSlot .argument))

/-- Whether an operator that needs no input starts here. -/
def startsLeading (t next : Token) : Bool :=
  if t.kind ≠ .word then false
  else if (["union", "print", "evaluate"].map bytes).contains t.text then true
  else if (["search", "find"].map bytes).contains t.text then
    next.kind ≠ .pipe && next.kind ≠ .semicolon && next.kind ≠ .endOfInput
  else if (["datatable", "externaldata"].map bytes).contains t.text then next.kind = .leftParen
  else if t.text = bytes "range" then next.kind = .word
  else false

/-- An operator that needs no input. -/
def leading (g : Grammar) : Parser Node := do
  if ← seesWord (bytes "union") then union g else operator g

/-- The operator after a pipe. -/
def pipeOperator (g : Grammar) : Parser Node := do
  let t ← current
  if t.kind ≠ .word then refuse .expectedOperator
  else if t.text = bytes "join" then joinLike g .join
  else if t.text = bytes "lookup" then joinLike g .lookup
  else if t.text = bytes "union" then union g
  else if pipeOperators.contains t.text then operator g
  else refuse (.unknownOperator t.text)

end KustoFacts.Parser
