import KustoFacts.Query.Token

/-!
    The words that steer the parser. -/

namespace KustoFacts

/-- The operators that may follow a pipe. -/
def pipeOperators : List Bytes :=
  ["as", "assert-schema", "consume", "count", "distinct", "evaluate", "extend", "facet", "filter",
    "fork", "getschema", "graph-match", "graph-merge", "invoke", "join", "limit", "lookup",
    "make-graph", "make-series", "mv-apply", "mv-expand", "order", "parse", "parse-kv",
    "parse-where", "partition", "project", "project-away", "project-keep", "project-rename",
    "project-reorder", "project-smart", "reduce", "render", "sample", "sample-distinct", "scan",
    "search", "serialize", "sort", "summarize", "take", "top", "top-hitters", "top-nested", "union",
    "where"].map bytes

/-- The words that separate the parts of an operator's body. -/
def clauseWords : List Bytes :=
  ["by", "on", "with", "asc", "desc", "nulls", "first", "last", "to", "of", "from", "step",
    "limit"].map bytes

/-- The operators that are incomplete without arguments. -/
def bodyRequired : List Bytes :=
  ["where", "filter", "extend", "project", "project-away", "project-keep", "project-rename",
    "project-reorder", "take", "limit", "top", "sort", "order", "mv-expand", "mv-apply", "parse",
    "parse-where", "summarize", "distinct"].map bytes

/-- The named parameters of each operator that has some. -/
def operatorParams : List (Bytes × List Bytes) :=
  [("union", ["kind", "withsource", "isfuzzy"]),
    ("mv-expand", ["kind", "bagexpansion", "with_itemindex"]),
    ("mv-apply", ["with_itemindex"]),
    ("parse", ["kind", "flags"]),
    ("parse-where", ["kind", "flags"]),
    ("parse-kv", ["kind", "pair_delimiter", "kv_delimiter", "quote", "escape", "greedy"]),
    ("make-series", ["kind"]),
    ("search", ["kind"]),
    ("find", ["withsource"]),
    ("reduce", ["kind", "characters", "threshold"]),
    ("scan", ["with_match_id", "declare"])].map fun (op, names) => (bytes op, names.map bytes)

/-- The word operators that compare. -/
def stringOperators : List Bytes :=
  ["contains", "contains_cs", "has", "has_cs", "has_any", "has_all", "hasprefix", "hasprefix_cs",
    "hassuffix", "hassuffix_cs", "startswith", "startswith_cs", "endswith", "endswith_cs", "like",
    "notlike", "likecs", "notlikecs", "in", "in~", "matches", "between"].map bytes

/-- How tightly a token binds as an infix operator: 1 for `or`, 2 for `and`, 3 for comparisons, 4
    for sums, 5 for products, and 0 for a token that is no infix operator. -/
def infixLevel (t : Token) : Nat :=
  match t.kind with
  | .equal | .notEqual | .less | .greater | .lessEqual | .greaterEqual | .equalTilde | .notTilde
  | .negatedWord => 3
  | .plus | .minus => 4
  | .star | .slash | .percent => 5
  | .word =>
    if t.text = bytes "or" then 1
    else if t.text = bytes "and" then 2
    else if stringOperators.contains t.text then 3
    else 0
  | _ => 0

/-- Whether a token can begin the right side of an infix operator. -/
def startsOperand (t : Token) : Bool :=
  match t.kind with
  | .word | .number | .string | .literal | .leftParen | .leftBracket | .minus | .plus => true
  | _ => false

end KustoFacts
