import KustoFacts.Query.Parser.Primary

/-!
    Statements. After a fault the rest of the statement is skipped, and reading goes on at the
    next one, so that one query text can be refused for several faults. -/

namespace KustoFacts.Parser

/-- An expression with its pipes, as a statement or a value. -/
def pipeExpression (g : Grammar) : Parser Node := do
  let first ← current
  let head ← if startsLeading first (← peek) then leading g else expression g
  pipes g first head

/-- A declared name, plain or in brackets and quotes. -/
def nameDeclaration : Parser (Bytes × Node) := do
  let first ← current
  if first.kind = .word then
    advance
    return (first.text, ← build first (.nameDeclaration first.text) [])
  else if first.kind = .leftBracket && (← peek).kind = .string &&
      (← peekSecond).kind = .rightBracket then
    advance
    let name := Unquoted.value (← current).text
    advance
    advance
    return (name, ← build first (.nameDeclaration name) [])
  else refuse .expectedName

/-! ### Parameters -/

/-- One round of looking for a closing parenthesis, inside a number of open ones. -/
def closeRound (depth : Nat) : Parser (Round Nat Unit) := do
  let t ← current
  match t.kind with
  | .endOfInput => refuse (.expectedToken .rightParen)
  | .leftParen =>
    advance
    return .again (depth + 1)
  | .rightParen =>
    advance
    if depth = 1 then return .done ()
    return .again (depth - 1)
  | _ =>
    advance
    return .again depth

/-- Consumes tokens up to the parenthesis that closes one already consumed. -/
def closeParens (g : Grammar) : Parser Unit := loop closeRound g.bound 1

/-- The type of a parameter, and whether it is a table's schema. -/
def parameterType (g : Grammar) : Parser (Bytes × Bool) := do
  let first ← current
  if first.kind = .leftParen then
    advance
    closeParens g
    let s ← state
    return (s.source.slice first.pos.offset s.prevEnd, true)
  else return (← typeName, false)

/-- A parameter with its type and default. -/
def parameter (g : Grammar) : Parser Node := do
  let first ← current
  expect .word
  expect .colon
  let (type, tabular) ← parameterType g
  let given ← assigned g
  build first (.parameter first.text type tabular) given

/-- Parameters in parentheses. -/
def parameterList (g : Grammar) : Parser (List Node) := do
  expect .leftParen
  let params ← itemsUntil g.bound .rightParen (parameter g)
  expect .rightParen
  return params.map (·.inSlot .parameter)

/-! ### Single statements -/

/-- Whether a function is declared here: an empty or typed parameter list, or a view. -/
def startsFunction : Parser Bool := do
  let t ← current
  let next ← peek
  let third ← peekSecond
  if t.isWord (bytes "view") && next.kind = .leftParen then return true
  if t.kind ≠ .leftParen then return false
  return next.kind = .rightParen && third.kind = .leftBrace ||
    next.kind = .word && third.kind = .colon

/-- A function with its parameters and body. -/
def functionDeclaration (g : Grammar) : Parser Node := do
  let first ← current
  let view ← acceptWord (bytes "view")
  let params ← parameterList g
  expect .leftBrace
  let body ← braced g
  build first (.functionDeclaration view false) (params ++ [body.inSlot .body])

/-- A name and what it is given to. -/
def letStatement (g : Grammar) : Parser Node := do
  let first ← current
  advance
  let (name, declared) ← nameDeclaration
  expect .assign
  let value ← if ← startsFunction then functionDeclaration g else pipeExpression g
  build first (.letStatement name) [declared.inSlot .name, value.inSlot .value]

/-- An option and its value. -/
def setStatement (g : Grammar) : Parser Node := do
  let first ← current
  advance
  let option ← current
  advance
  let name ← dottedName g.bound option.text
  let given ← assigned g
  build first (.setStatement (bytes "set") name) given

/-- The parameters of the whole query. -/
def declareStatement (g : Grammar) : Parser Node := do
  let first ← current
  advance
  advance
  let params ← parameterList g
  build first (.setStatement (bytes "declare") (bytes "query_parameters")) params

/-- A second name of a database. -/
def aliasStatement (g : Grammar) : Parser Node := do
  let first ← current
  advance
  advance
  let (name, _) ← nameDeclaration
  expect .assign
  let value ← expression g
  build first (.setStatement (bytes "alias") name) [value.inSlot .value]

/-- An expression that stands as a statement from a token on. -/
def expressionStatement (g : Grammar) (first : Token) : Parser Node := do
  let node ← pipeExpression g
  build first .expressionStatement [node.inSlot .expression]

/-- One statement. -/
def statement (g : Grammar) : Parser Node := do
  let first ← current
  let next ← peek
  if first.isWord (bytes "let") && (next.kind = .word || next.kind = .leftBracket) then
    letStatement g
  else if first.isWord (bytes "set") && next.kind = .word then setStatement g
  else if first.isWord (bytes "declare") && next.isWord (bytes "query_parameters") then
    declareStatement g
  else if first.isWord (bytes "alias") && next.isWord (bytes "database") then aliasStatement g
  else expressionStatement g first

/-! ### Queries -/

/-- One round of skipping, inside a number of braces opened on the way. -/
def skipRound (stop : TokenKind) (depth : Int) : Parser (Round Int Unit) := do
  let t ← current
  match t.kind with
  | .endOfInput => return .done ()
  | .semicolon =>
    if depth = 0 then return .done ()
    advance
    return .again depth
  | .leftBrace =>
    advance
    return .again (depth + 1)
  | .rightBrace =>
    if depth = 0 && stop = .rightBrace then return .done ()
    advance
    return .again (depth - 1)
  | _ =>
    advance
    return .again depth

/-- Skips to the end of the statement: to a semicolon outside of braces opened on the way, or to
    the brace that closes the block being read. -/
def skipStatement (g : Grammar) (stop : TokenKind) : Parser Unit := loop (skipRound stop) g.bound 0

/-- Whether a token ends a statement. -/
def endsStatement (stop : TokenKind) (t : Token) : Bool :=
  t.kind = .semicolon || t.kind = .endOfInput || t.kind = stop

/-- One round of reading statements; those read so far are kept latest first. -/
def statementRound (g : Grammar) (stop : TokenKind) (found : List Node) :
    Parser (Round (List Node) (List Node)) := do
  let t ← current
  if t.kind = .endOfInput || t.kind = stop then return .done found.reverse
  if ← accept .semicolon then return .again found
  let before := (← state).reported.length
  let read ← attempt (statement g)
  let found := read.toList ++ found
  let s ← state
  if s.reported.length > before then
    skipStatement g stop
  else if !endsStatement stop s.current then
    report (.unexpectedToken s.current.text)
    skipStatement g stop
  return .again found

/-- Statements up to a stop token. -/
def query (g : Grammar) (stop : TokenKind) : Parser Node := do
  let first ← current
  let statements ← nested (loop (statementRound g stop) g.bound []) do
    skipStatement g stop
    return []
  build first .query (statements.map (·.inSlot .statement))

end KustoFacts.Parser
