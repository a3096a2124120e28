import KustoFacts.Files
import KustoFacts.Query.Catalog
import KustoFacts.Text.Quoted
import KustoFacts.Yaml.Reader

/-!
    Catalogs: the tables that are known, with the columns that were declared for them. A catalog
    file is a YAML map whose entry `tables` lists names, or maps with a `name` and `columns`. Every
    table has a name, and no two tables have the same one. -/

namespace KustoFacts

/-- A table and its declared columns. -/
structure CatalogTable where
  name : Bytes
  columns : List Bytes
  deriving DecidableEq, Repr

/-- The known tables, latest listed first. -/
structure Catalog where
  tables : List CatalogTable
  distinct : (tables.map (·.name)).Nodup
  deriving DecidableEq

/-- Why a text is no catalog. -/
inductive CatalogFault where
  | malformed
  | unnamed (position : Nat)
  | repeated (name : Bytes)
  deriving DecidableEq, Repr

/-- The wording of a fault. -/
def CatalogFault.message : CatalogFault → Bytes
  | .malformed => bytes "parsing catalog"
  | .unnamed position => bytes "table " ++ decimal position ++ bytes " has no name"
  | .repeated name => bytes "table " ++ Quoted.text name ++ bytes " listed more than once"

/-- Why there is no catalog at a path. -/
inductive CatalogError where
  | unreadable (path : Bytes) (why : FileFault)
  | invalid (path : Bytes) (why : CatalogFault)
  deriving DecidableEq, Repr

/-- The wording of an error. -/
def CatalogError.message : CatalogError → Bytes
  | .unreadable path why => bytes "reading catalog: " ++ why.message path
  | .invalid path why => bytes "catalog " ++ path ++ bytes ": " ++ why.message

/-! ### From a document -/

namespace CatalogTable

/-- The text of a scalar as it is written; nothing where it stands for no value. -/
def text? (n : Yaml.Node) : Option Bytes :=
  n.scalar?.map fun (v, text) => if v = .null then [] else text

/-- The items of a list, without those that stand for no value; a missing list is empty. -/
def items? : Yaml.Node → Option (List Yaml.Node)
  | .list items =>
    if items.all fun item => !item.isNull || item.scalar?.isSome then
      some (items.filter fun item => !item.isNull)
    else none
  | .alias _ n => items? n
  | n => if n.scalar?.any (·.1 = .null) then some [] else none

/-- A table from its node: a name, or a map. -/
def ofNode? : Yaml.Node → Option CatalogTable
  | .map entries => do
    let m ← Yaml.Node.members? none entries
    let name ← text? (← m.entry? (bytes "name"))
    let columns ← (← items? (← m.entry? (bytes "columns"))).mapM text?
    return ⟨name, columns⟩
  | .alias _ n => ofNode? n
  | n => (text? n).map (⟨·, []⟩)

/-- The tables that the root of a document lists. -/
def listed? : Yaml.Node → Option (List CatalogTable)
  | .map entries => do
    let m ← Yaml.Node.members? none entries
    (← items? (← m.entry? (bytes "tables"))).mapM ofNode?
  | root => if root.scalar?.any (·.1 = .null) then some [] else none

end CatalogTable

namespace Catalog

/-- No table has the name of another when there is none. -/
theorem nodup_no_names : (([] : List CatalogTable).map (·.name)).Nodup := .nil

/-- No table is known. -/
def empty : Catalog := ⟨[], nodup_no_names⟩

/-- The catalog with one more table, the one at a given position of the list. White space around
    its name is dropped. -/
def add (c : Catalog) (position : Nat) (table : CatalogTable) : Except CatalogFault Catalog :=
  let name := trimBlanks table.name
  if name = [] then .error (.unnamed position)
  else if h : (c.tables.map (·.name)).contains name then .error (.repeated name)
  else
    .ok ⟨⟨name, table.columns⟩ :: c.tables, by
      rw [List.map_cons, List.nodup_cons]; exact ⟨by simpa using h, c.distinct⟩⟩

/-- The catalog of a list of tables. -/
def ofTables (tables : List CatalogTable) : Except CatalogFault Catalog :=
  tables.zipIdx.foldlM (fun c (table, i) => c.add (i + 1) table) empty

/-- The catalog a text describes. -/
def ofText (text : Bytes) : Except CatalogFault Catalog :=
  match (Yaml.read? text).bind CatalogTable.listed? with
  | some tables => ofTables tables
  | none => .error .malformed

/-- The catalog of a file that has been looked up. -/
def ofFile (path : Bytes) (contents : Except FileFault Bytes) : Except CatalogError Catalog :=
  match contents with
  | .error why => .error (.unreadable path why)
  | .ok text => (ofText text).mapError (.invalid path)

/-- The names of the tables. -/
def names (c : Catalog) : NameSet := .ofList (c.tables.map (·.name))

/-- The table of a name. -/
def get? (c : Catalog) (name : Bytes) : Option CatalogTable := c.tables.find? (·.name = name)

/-- The tables by name alone. -/
def tableNames (c : Catalog) : TableNames := ⟨c.names⟩

end Catalog
end KustoFacts
