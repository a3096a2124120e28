import KustoFacts.Facts.Basic
import KustoFacts.Facts.JoinKind
import KustoFacts.Query.Node

/-!
    Collecting facts from a tree. Nodes are visited parents before children and children in order.
    Each node shows at most one finding, which depends on the node and its slot alone, and the
    facts of a tree are those of its nodes taken together. A visit ends where the children of a
    node cannot be read. A stub in a place where its parts are needed is malformed; the first such
    node is what the survey fails with, unless the visit ended early. -/

namespace KustoFacts

/-- Why a survey yields no facts. -/
inductive SurveyError where
  /-- The children of a node could not be read. -/
  | unreadable (fault : Bytes)
  /-- A node does not have the parts its kind promises. -/
  | malformed (kind : NodeKind) (span : Span)
  deriving DecidableEq, Repr

/-- The wording of an error. -/
def SurveyError.message : SurveyError → Bytes
  | .unreadable fault => bytes "panic during walk: " ++ fault
  | .malformed kind span =>
    bytes "malformed " ++ kind.name ++ bytes " node at " ++ span.render

namespace Node

/-- Why the children of a node cannot be read, if they cannot. -/
def fault? (n : Node) : Option Bytes :=
  match n.form with
  | .stub _ fault => fault
  | _ => none

/-- The nodes of a list up to and including the first whose children cannot be read. -/
def upToFault : List Node → List Node
  | [] => []
  | n :: ns => if n.fault?.isSome then [n] else n :: upToFault ns

/-- The nodes a visit reaches, in order; the root fills no slot. -/
def visited (root : Node) : List Node := upToFault (root.inSlot .none).preorder

/-! ### Single findings -/

/-- The target recorded when the right side of a join has no name. -/
def unnamedTarget : Bytes := bytes "(...)"

/-- The targets of the right side of a join: a name, plain or in parentheses, or the placeholder
    for everything else. -/
def joinTargets (right : Option Node) : List Bytes :=
  let name :=
    match right with
    | some (.mk _ .parenthesized _ _ [inner]) => inner.refName?
    | some n => n.refName?
    | none => none
  match name with
  | some (b :: bs) => [b :: bs]
  | _ => [unnamedTarget]

/-- The label of a join, given the text of its kind. -/
def joinLabel (normalize : Bool) : Option Bytes → Bytes
  | none => JoinKind.usual
  | some text => if normalize then JoinKind.normalize text else text

/-- What a node in an operator's slot shows. -/
def operatorFinding (normalize : Bool) (n : Node) : Except SurveyError Finding :=
  match n.form with
  | .join kind => .ok (.join (joinLabel normalize kind) (joinTargets (n.child? .right)))
  | .lookup _ => .ok (.join JoinKind.lookup (joinTargets (n.child? .right)))
  | .stub .joinOperator _ | .stub .lookupOperator _ => .error (.malformed n.kind n.span)
  | _ => .ok (.operator n.first.text)

/-- What a node shows, if anything. -/
def finding (normalize : Bool) (n : Node) : Except SurveyError (Option Finding) :=
  match n.form with
  | .functionCall name => .ok (some (.call name))
  | .nameReference name symbol => .ok (if symbol = .table then some (.table name) else none)
  | .stub .functionCall _ | .stub .nameReference _ => .error (.malformed n.kind n.span)
  | form =>
    if n.role = .operator then (operatorFinding normalize n).map some
    else
      match form with
      | .union =>
        .ok (some (.join JoinKind.union ((n.childrenAs .operand).filterMap refName?)))
      | .stub .unionOperator _ => .error (.malformed n.kind n.span)
      | _ => .ok none

/-- The kind of a join that lies outside of the vocabulary. -/
def strangeKind? (n : Node) : Option Bytes :=
  match n.role, n.form with
  | .operator, .join (some kind) => if (JoinKind.known? kind).isNone then some kind else none
  | _, _ => none

end Node

/-! ### All findings -/

/-- The facts with what one node shows added; an error, once there is one, stays. -/
def surveyStep (normalize : Bool) (sofar : Except SurveyError Facts) (n : Node) :
    Except SurveyError Facts :=
  match sofar with
  | .error e => .error e
  | .ok facts => (n.finding normalize).map fun found => (found.map facts.add).getD facts

/-- The facts shown by a list of nodes, or the first malformed node of the list. -/
def surveyNodes (normalize : Bool) (id : Bytes) (nodes : List Node) : Except SurveyError Facts :=
  nodes.foldl (surveyStep normalize) (.ok (.empty id))

/-- The facts shown by a tree. -/
def survey (normalize : Bool) (id : Bytes) (root : Node) : Except SurveyError Facts :=
  let nodes := root.visited
  match nodes.findSome? Node.fault? with
  | some fault => .error (.unreadable fault)
  | none => surveyNodes normalize id nodes

/-- The kinds of join outside of the vocabulary that a visit meets, in order. -/
def strangeKinds (root : Node) : List Bytes := root.visited.filterMap Node.strangeKind?

end KustoFacts
