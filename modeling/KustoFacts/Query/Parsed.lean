import KustoFacts.Query.Parser.Grammar
import KustoFacts.Query.Symbols

/-!
    A query text read and resolved. -/

namespace KustoFacts

/-- A parsed query: its text without a byte order mark, its tree with all names resolved, and
    everything that is wrong with it, in source order. -/
structure Parsed where
  text : Bytes
  root : Node
  diagnostics : List Diagnostic

namespace Parsed

/-- The byte order mark, which may stand before a text. -/
def byteOrderMark : Bytes := [0xEF, 0xBB, 0xBF]

/-- A text without its byte order mark. -/
def withoutMark (text : Bytes) : Bytes := (Bytes.after? byteOrderMark text).getD text

/-- The tree of a token list with its names resolved, and what the lexer and the parser found. -/
def ofTokens (catalog : TableNames) (text : Bytes) (read : Tokens) : Parsed :=
  let (root, reported) := parseTokens text read
  { text := text
    root := root.resolve catalog .top .scalar
    diagnostics := mergeByStart Diagnostic.start read.diagnostics reported }

end Parsed

/-- A query text parsed and resolved with the tables of a catalog. -/
def parse (catalog : TableNames) (text : Bytes) : Except Overrun Parsed :=
  let text := Parsed.withoutMark text
  (tokenize text).map (Parsed.ofTokens catalog text)

end KustoFacts
