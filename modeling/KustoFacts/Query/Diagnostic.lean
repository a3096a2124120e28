import KustoFacts.Query.Token
import KustoFacts.Text.Quoted

/-!
    What can be wrong with a query text, and where. Each fault is a cause with its own wording;
    `mergeByStart` interleaves two lists by the place where their members start. -/

namespace KustoFacts

/-- How deep expressions, operators and blocks may nest. -/
def maxNesting : Nat := 1000

/-- Why a query text is refused. -/
inductive Fault where
  | unterminatedString
  | unterminatedLiteral
  | unexpectedByte (byte : UInt8)
  | expectedToken (kind : TokenKind)
  | expectedName
  | expectedTypeName
  | expectedRegex
  | expectedExpression
  | expectedOperator
  | unknownOperator (word : Bytes)
  | unexpectedToken (text : Bytes)
  | nestingTooDeep
  deriving DecidableEq, Repr

/-- The wording of a fault. -/
def Fault.message : Fault → Bytes
  | unterminatedString => bytes "Unterminated string literal."
  | unterminatedLiteral => bytes "Unterminated literal."
  | unexpectedByte b => bytes "Unexpected character " ++ Quoted.byte b ++ bytes "."
  | expectedToken kind => bytes "Expected: " ++ kind.name
  | expectedName => bytes "Expected: name"
  | expectedTypeName => bytes "Expected: type name"
  | expectedRegex => bytes "Expected: regex"
  | expectedExpression => bytes "Expected: expression"
  | expectedOperator => bytes "Expected: query operator"
  | unknownOperator word => bytes "Unknown query operator: " ++ word
  | unexpectedToken text => bytes "Unexpected token: " ++ text
  | nestingTooDeep => bytes "Query nesting exceeds " ++ decimal maxNesting ++ bytes " levels."

/-- A half-open range of offsets. -/
structure Span where
  start : Nat
  stop : Nat
  deriving DecidableEq, Repr

/-- How a range is written: its two offsets in brackets. -/
def Span.render (s : Span) : Bytes :=
  bytes "[" ++ decimal s.start ++ bytes ".." ++ decimal s.stop ++ bytes "]"

/-- A message about a range. -/
def Span.say (s : Span) (message : Bytes) : Bytes := s.render ++ bytes ": " ++ message

/-- A fault at a range of the text, which starts at `place`. -/
structure Diagnostic where
  place : Position
  stop : Nat
  fault : Fault
  deriving DecidableEq, Repr

namespace Diagnostic

/-- Where a diagnostic starts. -/
def start (d : Diagnostic) : Nat := d.place.offset

/-- The range a diagnostic covers. -/
def span (d : Diagnostic) : Span := ⟨d.start, d.stop⟩

/-- A diagnostic as one line of text. -/
def render (d : Diagnostic) : Bytes := d.span.say d.fault.message

end Diagnostic

/-- Two lists interleaved by the start of their members; where starts are equal the member of the
    first list comes first. -/
def mergeByStart {α : Type} (start : α → Nat) (xs ys : List α) : List α :=
  xs.merge ys fun x y => start x ≤ start y

end KustoFacts
