import KustoFacts.Query.Parser.Basic

/-!
    What the productions of the grammar need from each other across levels of nesting. Within one
    level a production calls the others directly; to read something that may contain the construct
    being read it asks the grammar it is given for a goal. The knot is tied once, in
    `KustoFacts.Query.Parser.Grammar`. -/

namespace KustoFacts

/-- What can be asked for across levels. -/
inductive Goal where
  /-- Statements up to the end of the text or a stop token. -/
  | query (stop : TokenKind)
  /-- A signed operand. -/
  | unary
  /-- An expression of operators that bind tighter than a level. -/
  | binary (level : Nat)
  /-- The operator after a pipe. -/
  | pipeOperator
  /-- The sources of a search. -/
  | sources
  deriving DecidableEq, Repr

/-- What a production is given: how to reach a goal, and a bound on the rounds of its loops. -/
structure Grammar where
  bound : Nat
  reach : Goal → Parser Node

end KustoFacts
