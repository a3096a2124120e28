import KustoFacts.Query.Node
import KustoFacts.Query.Catalog

/-!
    Resolving names. A name declared by a `let` statement or a parameter takes the kind of its
    declaration, looked up from the innermost scope outwards. Any other name is a table if the
    catalog knows it or if it stands where only a table can: at the head of a pipe, on the right of
    a join or lookup, as an operand of a union, as a statement. Functions and braced blocks open a
    scope of their own.

    `Node.resolve` returns the tree with every symbol filled in. It takes the scopes as a value and
    gives none back, so what is declared inside a node cannot be seen outside of it; only a
    statement extends the scope of the statements after it. -/

namespace KustoFacts

/-- What a declaration gives a name: its kind and, for a function, whether it yields a table and
    which of its parameters take one. -/
structure Binding where
  symbol : Symbol
  tabular : Bool
  params : List Bool
  deriving DecidableEq, Repr

/-- The binding of a name that is not a function. -/
def Binding.plain (symbol : Symbol) : Binding := ⟨symbol, false, []⟩

/-- The declarations of one scope, latest first. -/
abbrev Scope := List (Bytes × Binding)

/-- The scopes around a node: the innermost, of which there is always one, and those around it,
    nearest first. -/
structure Scopes where
  inner : Scope
  outer : List Scope
  deriving DecidableEq, Repr

namespace Scopes

/-- The scope of a whole query. -/
def top : Scopes := ⟨[], []⟩

/-- The scopes with one more opened inside. -/
def push (scopes : Scopes) : Scopes := ⟨[], scopes.inner :: scopes.outer⟩

/-- The scopes with a declaration added to the innermost. -/
def declare (name : Bytes) (binding : Binding) (scopes : Scopes) : Scopes :=
  { scopes with inner := (name, binding) :: scopes.inner }

/-- The latest declaration of a name in the nearest scope that has one. -/
def find? (scopes : Scopes) (name : Bytes) : Option Binding :=
  (scopes.inner :: scopes.outer).findSome? (·.lookup name)

end Scopes

/-- How a node stands in its surroundings. -/
inductive Stance where
  /-- Where a value is expected. -/
  | scalar
  /-- Where a table is expected. -/
  | tabular
  /-- After a dot, in a place where a table is expected or not. -/
  | member (tabular : Bool)
  deriving DecidableEq, Repr

namespace Stance

/-- A place where a table is expected or not. -/
def ofBool (tabular : Bool) : Stance := if tabular then .tabular else .scalar

/-- Whether a table is expected; what a member holds inside stands on its own. -/
def isTabular : Stance → Bool
  | .tabular => true
  | _ => false

end Stance

/-- The functions whose arguments are tables. -/
def tabularFunctions : List Bytes := ["materialize", "toscalar"].map bytes

/-- The functions that yield a table. -/
def tableFunctions : List Bytes :=
  ["materialize", "table", "external_table", "materialized_view", "cluster", "database"].map bytes

/-- The operators that test membership, whose right side in parentheses is a table. -/
def setOperators : List Bytes := ["in", "!in", "in~", "!in~", "has_any", "has_all"].map bytes

/-- The symbol of a reference to a name. -/
def resolveName (catalog : TableNames) (scopes : Scopes) (tabular : Bool) (name : Bytes) : Symbol :=
  match scopes.find? name with
  | some binding => binding.symbol
  | none => if catalog.has name || tabular then .table else .unknown

/-- How the child at an index stands, given the form and stance of its parent. -/
def childStance (scopes : Scopes) (form : Form) (stance : Stance) (index : Nat) (child : Node) :
    Stance :=
  match form with
  | .parenthesized | .list => .ofBool stance.isTabular
  | .pipeExpression => .ofBool (child.role = .expression)
  | .join _ | .lookup _ => .ofBool (child.role = .right)
  | .union | .operator _ => .ofBool (child.role = .operand)
  | .path => if child.role = .selector then .member stance.isTabular else .scalar
  | .functionCall name =>
    let usual := tabularFunctions.contains name
    match scopes.find? name with
    | some ⟨.function, _, params⟩ => .ofBool (params.getD index usual)
    | _ => .ofBool usual
  | .binary op =>
    .ofBool (child.role = .right && child.kind = .parenthesized && setOperators.contains op)
  | .letStatement _ => .ofBool (child.role = .value)
  | .expressionStatement => .tabular
  | _ => .scalar

namespace Node

/-- The kind that a name gets from a resolved value it is given to. -/
def valueSymbol (scopes : Scopes) : Node → Symbol
  | .mk _ .pipeExpression _ _ _ => .table
  | .mk _ .union _ _ _ => .table
  | .mk _ (.operator _) _ _ _ => .table
  | .mk _ .parenthesized _ _ [inner] => inner.valueSymbol scopes
  | .mk _ (.nameReference _ symbol) _ _ _ => if symbol = .unknown then .scalar else symbol
  | .mk _ .path _ _ [_, .mk _ (.nameReference _ symbol) _ _ _] =>
    if symbol = .table then .table else .scalar
  | .mk _ (.functionCall name) _ _ _ =>
    if tableFunctions.contains name then .table
    else
      match scopes.find? name with
      | some ⟨.function, true, _⟩ => .table
      | _ => .scalar
  | .mk _ (.functionDeclaration _ _) _ _ _ => .function
  | _ => .scalar

/-- The scopes with the parameters among some nodes declared. -/
def declareParams (scopes : Scopes) (nodes : List Node) : Scopes :=
  nodes.foldl (fun scopes n =>
    match n.form with
    | .parameter name _ tabular =>
      scopes.declare name (.plain (if tabular then .table else .scalar))
    | _ => scopes) scopes

/-- The binding a `let` statement gives its name, from the resolved value. -/
def bindingOf (scopes : Scopes) (value : Node) : Binding :=
  match value.form with
  | .functionDeclaration _ tabular =>
    ⟨.function, tabular, value.children.filterMap fun n =>
      match n.form with
      | .parameter _ _ tabular => some tabular
      | _ => none⟩
  | _ => .plain (value.valueSymbol scopes)

/-- The scopes after a statement with resolved children. -/
def declareLet (scopes : Scopes) (form : Form) (children : List Node) : Scopes :=
  match form, children.find? (·.role = .value) with
  | .letStatement name, some value => scopes.declare name (bindingOf scopes value)
  | _, _ => scopes

/-- Whether the last of some resolved statements yields a table. -/
def yieldsTable (scopes : Scopes) (statements : List Node) : Bool :=
  match statements.getLast? with
  | some (.mk _ .expressionStatement _ _ [value]) => value.valueSymbol scopes = .table
  | _ => false

mutual

/-- A node with every name in it resolved. Option words and the defaults of a directive's
    parameters are no references and stay as they are. -/
def resolve (catalog : TableNames) (scopes : Scopes) (stance : Stance) : Node → Node
  | .mk role form span first children =>
    match form with
    | .nameReference name symbol =>
      let symbol :=
        match stance with
        | .member tabular => if tabular then .table else symbol
        | stance => resolveName catalog scopes stance.isTabular name
      .mk role (.nameReference name symbol) span first children
    | .namedParameter _ | .parameter _ _ _ => .mk role form span first children
    | .query => .mk role form span first (resolveStatements catalog scopes.push children).2
    | .functionDeclaration view _ =>
      let inner := declareParams scopes.push children
      let (tabular, children) := resolveFunction catalog inner children
      .mk role (.functionDeclaration view tabular) span first children
    | form => .mk role form span first (resolveChildren catalog scopes form stance 0 children)

/-- The children of a node, from the one at an index on, each resolved where it stands. -/
def resolveChildren (catalog : TableNames) (scopes : Scopes) (form : Form) (stance : Stance)
    (index : Nat) : List Node → List Node
  | [] => []
  | n :: ns =>
    n.resolve catalog scopes (childStance scopes form stance index n) ::
      resolveChildren catalog scopes form stance (index + 1) ns

/-- The parameters and body of a function, and whether the body yields a table. -/
def resolveFunction (catalog : TableNames) (scopes : Scopes) : List Node → Bool × List Node
  | [] => (false, [])
  | .mk role form span first children :: ns =>
    let (tabular, ns) := resolveFunction catalog scopes ns
    match form with
    | .query =>
      let (scopes, statements) := resolveStatements catalog scopes children
      (yieldsTable scopes statements, .mk role form span first statements :: ns)
    | form =>
      (tabular, .mk role form span first (resolveChildren catalog scopes form .scalar 0 children) ::
        ns)

/-- Statements in order, each of which may declare names for those after it; with the scopes after
    the last. -/
def resolveStatements (catalog : TableNames) (scopes : Scopes) : List Node → Scopes × List Node
  | [] => (scopes, [])
  | .mk role form span first children :: ns =>
    let scopes := declareParams scopes children
    let children := resolveChildren catalog scopes form .scalar 0 children
    let (last, ns) := resolveStatements catalog (declareLet scopes form children) ns
    (last, .mk role form span first children :: ns)

end

end Node
end KustoFacts
