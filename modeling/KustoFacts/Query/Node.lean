import KustoFacts.Query.Diagnostic

/-!
    The tree of a query. Every node has the same shape: the slot it fills in its parent, a form
    with what that form carries, the range of text it was read from, its first token, and its
    children in source order. A form says which kind of construct the node is; two forms are filled
    in after parsing, when names are resolved: the symbol of a name reference, and whether a
    function's body yields a table. A stub only reports a kind and stands for a node that was not
    built by the parser. -/

namespace KustoFacts

/-- The kinds of construct, in the order of their codes; `unknown` is every other code. -/
inductive NodeKind where
  | query
  | letStatement
  | setStatement
  | expressionStatement
  | functionDeclaration
  | parameter
  | pipeExpression
  | parenthesized
  | nameReference
  | nameDeclaration
  | wildcardName
  | functionCall
  | literal
  | binary
  | unary
  | between
  | path
  | elementAccess
  | namedExpression
  | namedParameter
  | list
  | star
  | typedColumn
  | joinOperator
  | lookupOperator
  | unionOperator
  | operator
  | unknown
  deriving DecidableEq, Repr

/-- The slots a node can fill, in the order of their codes; `unknown` is every other code. -/
inductive Role where
  | none
  | statement
  | value
  | expression
  | operator
  | operand
  | argument
  | parameter
  | body
  | left
  | right
  | condition
  | name
  | selector
  | index
  | low
  | high
  | element
  | unknown
  deriving DecidableEq, Repr

/-- What a name was resolved to. -/
inductive Symbol where
  | unknown
  | table
  | scalar
  | function
  deriving DecidableEq, Repr

namespace NodeKind

/-- The kinds that have a code, in order. -/
def all : List NodeKind :=
  [query, letStatement, setStatement, expressionStatement, functionDeclaration, parameter,
    pipeExpression, parenthesized, nameReference, nameDeclaration, wildcardName, functionCall,
    literal, binary, unary, between, path, elementAccess, namedExpression, namedParameter, list,
    star, typedColumn, joinOperator, lookupOperator, unionOperator, operator]

/-- The name of a kind. -/
def name : NodeKind → Bytes
  | query => bytes "Query"
  | letStatement => bytes "LetStatement"
  | setStatement => bytes "SetStatement"
  | expressionStatement => bytes "ExpressionStatement"
  | functionDeclaration => bytes "FunctionDeclaration"
  | parameter => bytes "Parameter"
  | pipeExpression => bytes "PipeExpression"
  | parenthesized => bytes "Parenthesized"
  | nameReference => bytes "NameReference"
  | nameDeclaration => bytes "NameDeclaration"
  | wildcardName => bytes "WildcardName"
  | functionCall => bytes "FunctionCall"
  | literal => bytes "Literal"
  | binary => bytes "Binary"
  | unary => bytes "Unary"
  | between => bytes "Between"
  | path => bytes "Path"
  | elementAccess => bytes "ElementAccess"
  | namedExpression => bytes "NamedExpression"
  | namedParameter => bytes "NamedParameter"
  | list => bytes "List"
  | star => bytes "Star"
  | typedColumn => bytes "TypedColumn"
  | joinOperator => bytes "JoinOperator"
  | lookupOperator => bytes "LookupOperator"
  | unionOperator => bytes "UnionOperator"
  | operator => bytes "Operator"
  | unknown => bytes "Unknown"

/-- The kind with a given name. -/
def ofName (name : Bytes) : NodeKind := (all.find? (·.name = name)).getD unknown

end NodeKind

namespace Role

/-- The roles that have a code, in order. -/
def all : List Role :=
  [none, statement, value, expression, operator, operand, argument, parameter, body, left, right,
    condition, name, selector, index, low, high, element]

/-- The name of a role. -/
def label : Role → Bytes
  | none => bytes "None"
  | statement => bytes "Statement"
  | value => bytes "Value"
  | expression => bytes "Expression"
  | operator => bytes "Operator"
  | operand => bytes "Operand"
  | argument => bytes "Argument"
  | parameter => bytes "Parameter"
  | body => bytes "Body"
  | left => bytes "Left"
  | right => bytes "Right"
  | condition => bytes "Condition"
  | name => bytes "Name"
  | selector => bytes "Selector"
  | index => bytes "Index"
  | low => bytes "Low"
  | high => bytes "High"
  | element => bytes "Element"
  | unknown => bytes "Unknown"

/-- The role with a given name. -/
def ofLabel (label : Bytes) : Role := (all.find? (·.label = label)).getD unknown

end Role

namespace Symbol

/-- The name of a symbol. -/
def name : Symbol → Bytes
  | unknown => bytes "unknown"
  | table => bytes "table"
  | scalar => bytes "scalar"
  | function => bytes "function"

/-- The name of the symbol with a given code; every other code is the unknown symbol. -/
def nameOfCode (code : Int) : Bytes :=
  if code = 1 then table.name
  else if code = 2 then scalar.name
  else if code = 3 then function.name
  else unknown.name

end Symbol

/-! ### Names by code -/

/-- A negative code names nothing. -/
structure NegativeCode where
  code : Int
  deriving DecidableEq, Repr

/-- How a negative code is reported. -/
def NegativeCode.message (e : NegativeCode) : Bytes :=
  bytes "runtime error: index out of range [" ++ decimalInt e.code ++ bytes "]"

/-- The name of the kind with a given code. -/
def NodeKind.nameOfCode (code : Int) : Except NegativeCode Bytes :=
  if code < 0 then .error ⟨code⟩ else .ok (NodeKind.all.getD code.toNat .unknown).name

/-- The name of the role with a given code. -/
def Role.labelOfCode (code : Int) : Except NegativeCode Bytes :=
  if code < 0 then .error ⟨code⟩ else .ok (Role.all.getD code.toNat .unknown).label

/-! ### Nodes -/

/-- What a node is, with what it carries besides its children. -/
inductive Form where
  /-- Statements separated by semicolons. -/
  | query
  /-- A name given to a value or function. -/
  | letStatement (name : Bytes)
  /-- A `set`, `declare` or `alias` directive. -/
  | setStatement (keyword name : Bytes)
  /-- An expression standing as a statement. -/
  | expressionStatement
  /-- Parameters and a body; `tabular` is set when the body is found to yield a table. -/
  | functionDeclaration (view tabular : Bool)
  /-- A declared parameter; a tabular one has a schema for its type. -/
  | parameter (name type : Bytes) (tabular : Bool)
  /-- A source and an operator applied to it; a subquery may begin without a source. -/
  | pipeExpression
  | parenthesized
  /-- The use of a name and what it was resolved to. -/
  | nameReference (name : Bytes) (symbol : Symbol)
  | nameDeclaration (name : Bytes)
  | wildcardName (pattern : Bytes)
  | functionCall (name : Bytes)
  | literal
  | binary (op : Bytes)
  | unary (op : Bytes)
  | between (op : Bytes)
  | path
  | elementAccess
  | namedExpression
  | namedParameter (name : Bytes)
  | list
  | star
  | typedColumn (type : Bytes)
  /-- A join; `kind` is the text of its first `kind` parameter. -/
  | join (kind : Option Bytes)
  /-- A lookup; `kind` is the text of its first `kind` parameter. -/
  | lookup (kind : Option Bytes)
  | union
  | operator (keyword : Bytes)
  /-- A node that only reports a kind; if there is a fault its children cannot be read. -/
  | stub (kind : NodeKind) (fault : Option Bytes)
  deriving DecidableEq, Repr

/-- The kind a form reports. -/
def Form.kind : Form → NodeKind
  | query => .query
  | letStatement _ => .letStatement
  | setStatement _ _ => .setStatement
  | expressionStatement => .expressionStatement
  | functionDeclaration _ _ => .functionDeclaration
  | parameter _ _ _ => .parameter
  | pipeExpression => .pipeExpression
  | parenthesized => .parenthesized
  | nameReference _ _ => .nameReference
  | nameDeclaration _ => .nameDeclaration
  | wildcardName _ => .wildcardName
  | functionCall _ => .functionCall
  | literal => .literal
  | binary _ => .binary
  | unary _ => .unary
  | between _ => .between
  | path => .path
  | elementAccess => .elementAccess
  | namedExpression => .namedExpression
  | namedParameter _ => .namedParameter
  | list => .list
  | star => .star
  | typedColumn _ => .typedColumn
  | join _ => .joinOperator
  | lookup _ => .lookupOperator
  | union => .unionOperator
  | operator _ => .operator
  | stub kind _ => kind

/-- The stub of a kind whose fault is given as a text; the empty text stands for none. -/
def Form.foreign (kind : NodeKind) (fault : Bytes) : Form :=
  .stub kind (if fault = [] then none else some fault)

/-- A node of the tree. -/
inductive Node where
  | mk (role : Role) (form : Form) (span : Span) (first : Token) (children : List Node)
  deriving Repr

namespace Node

/-- The slot a node fills in its parent. -/
def role : Node → Role
  | mk role _ _ _ _ => role

/-- What a node is. -/
def form : Node → Form
  | mk _ form _ _ _ => form

/-- The range of text a node was read from. -/
def span : Node → Span
  | mk _ _ span _ _ => span

/-- The first token of a node. -/
def first : Node → Token
  | mk _ _ _ first _ => first

/-- The children of a node, in source order. -/
def children : Node → List Node
  | mk _ _ _ _ children => children

/-- The kind a node reports. -/
def kind (n : Node) : NodeKind := n.form.kind

/-- A node put into a slot. -/
def inSlot (r : Role) : Node → Node
  | mk _ form span first children => mk r form span first children

/-- The text of a node, given the text it was read from. -/
def text (source : Bytes) (n : Node) : Bytes := source.slice n.span.start n.span.stop

/-- The name a name reference uses. -/
def refName? (n : Node) : Option Bytes :=
  match n.form with
  | .nameReference name _ => some name
  | _ => none

/-- The children that fill a given slot. -/
def childrenAs (n : Node) (r : Role) : List Node := n.children.filter (·.role = r)

/-- The first child in a given slot. -/
def child? (n : Node) (r : Role) : Option Node := n.children.find? (·.role = r)

mutual

/-- A node and all below it, parents before children and children in order, followed by `rest`. -/
def preorderOnto (rest : List Node) : Node → List Node
  | mk role form span first children =>
    mk role form span first children :: preorderAllOnto rest children

/-- The same for the nodes of a list. -/
def preorderAllOnto (rest : List Node) : List Node → List Node
  | [] => rest
  | n :: ns => preorderOnto (preorderAllOnto rest ns) n

end

/-- A node and all below it, parents before children and children in order. -/
def preorder (n : Node) : List Node := n.preorderOnto []

mutual

/-- The nodes in the order of `preorder`, each with its depth below depth `d`. -/
def depthsOnto (d : Nat) (rest : List (Nat × Node)) : Node → List (Nat × Node)
  | mk role form span first children =>
    (d, mk role form span first children) :: depthsAllOnto (d + 1) rest children

/-- The same for the nodes of a list. -/
def depthsAllOnto (d : Nat) (rest : List (Nat × Node)) : List Node → List (Nat × Node)
  | [] => rest
  | n :: ns => depthsOnto d (depthsAllOnto d rest ns) n

end

/-- The nodes in the order of `preorder`, each with its depth; the root has depth 0. -/
def depths (n : Node) : List (Nat × Node) := n.depthsOnto 0 []

end Node
end KustoFacts
