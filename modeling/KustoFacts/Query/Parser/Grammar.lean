import KustoFacts.Query.Parser.Statement
import KustoFacts.Query.Tokens

/-!
    The grammar as a whole. Each goal is reached by its production, given a grammar with one step
    less to go; two steps for each token and two more are always enough, because a production that
    asks for a goal has consumed a token first, except that an expression asks for its first
    operand where it stands. -/

namespace KustoFacts

/-- The production of a goal. -/
def Grammar.produce (g : Grammar) : Goal → Parser Node
  | .query stop => Parser.query g stop
  | .unary => Parser.nested (Parser.signed g) Parser.fail
  | .binary level => Parser.binary g level
  | .pipeOperator => Parser.nested (Parser.pipeOperator g) Parser.fail
  | .sources => Parser.primary g

/-- Reaches a goal in a given number of steps. -/
def Grammar.reachIn : (steps : Nat) → Goal → Parser Node
  | 0, _ => Parser.fail
  | steps + 1, goal => Grammar.produce ⟨steps, reachIn steps⟩ goal

namespace Parser

/-- Where a parser stands before it has consumed anything. -/
def initial (source : Bytes) (read : Tokens) : ParserState :=
  { source := source, tokens := read.tokens, ending := read.ending, prevEnd := 0, depth := 0,
    tooDeep := false, reported := [] }

/-- The steps that are enough for a number of tokens. -/
def enough (tokens : Nat) : Nat := 2 * tokens + 2

/-- Parses a token list as a query: the state left behind and the tree, if there is one. -/
def runQuery (source : Bytes) (read : Tokens) : Option Node × ParserState :=
  (Grammar.reachIn (enough read.tokens.length) (.query .endOfInput)).run (initial source read)

end Parser

/-- The query without statements that begins and ends at a token. -/
def Node.emptyQuery (first : Token) : Node :=
  .mk .none .query ⟨first.pos.offset, first.pos.offset⟩ first []

/-- The tree of a token list and what the parser reported, in order. -/
def parseTokens (source : Bytes) (read : Tokens) : Node × List Diagnostic :=
  let (root, s) := Parser.runQuery source read
  (root.getD (.emptyQuery (Parser.initial source read).current), s.reported.reverse)

end KustoFacts
