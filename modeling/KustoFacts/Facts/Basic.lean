import KustoFacts.Facts.Joins
import KustoFacts.Json.Value

/-!
    What is known about a query: the functions it calls, the operators it applies, the tables it
    reads, and what it joins, looks up or unites. -/

namespace KustoFacts

/-- The facts about the query with a given id. -/
structure Facts where
  id : Bytes
  functionCalls : NameSet
  joins : Joins
  operators : NameSet
  tables : NameSet
  deriving DecidableEq, Inhabited

/-- One thing that a node of the tree shows. -/
inductive Finding where
  | call (name : Bytes)
  | table (name : Bytes)
  | operator (word : Bytes)
  | join (kind : Bytes) (targets : List Bytes)
  deriving DecidableEq, Repr

namespace Facts

/-- No facts about a query. -/
def empty (id : Bytes) : Facts := ⟨id, .empty, .empty, .empty, .empty⟩

/-- The facts with a finding added. -/
def add (f : Facts) : Finding → Facts
  | .call name => { f with functionCalls := f.functionCalls.add name }
  | .table name => { f with tables := f.tables.add name }
  | .operator word => { f with operators := f.operators.add word }
  | .join kind targets => { f with joins := f.joins.add kind targets }

/-- A copy of the facts under another id, made by adding all of them to no facts. -/
def withId (f : Facts) (id : Bytes) : Facts where
  id := id
  functionCalls := .ofList f.functionCalls.items
  joins := Joins.empty.addAll f.joins.entries
  operators := .ofList f.operators.items
  tables := .ofList f.tables.items

/-- A set as a JSON array. -/
def setJson (s : NameSet) : Json := .array (s.items.map .string)

/-- Joins as a JSON object. -/
def joinsJson (j : Joins) : Json := .object (j.entries.map fun (kind, set) => (kind, setJson set))

/-- Facts as a JSON object. -/
def json (f : Facts) : Json :=
  .object
    [(bytes "id", .string f.id), (bytes "functionCalls", setJson f.functionCalls),
      (bytes "joins", joinsJson f.joins), (bytes "operators", setJson f.operators),
      (bytes "tables", setJson f.tables)]

end Facts
end KustoFacts
