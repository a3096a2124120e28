import KustoFacts.NameSet
import KustoFacts.Text.Blank

/-!
    The tables that are known by name, without which a name is taken for a table only by where it
    stands. -/

namespace KustoFacts

/-- The names of the known tables. -/
structure TableNames where
  names : NameSet
  deriving DecidableEq

namespace TableNames

/-- No table is known. -/
def empty : TableNames := ⟨.empty⟩

/-- The tables of a list of names; white space around a name is dropped, and so are blank names. -/
def ofList (names : List Bytes) : TableNames := ⟨.ofList (names.map trimBlanks)⟩

/-- Whether a name is known. -/
def has (t : TableNames) (name : Bytes) : Bool := t.names.has name

end TableNames
end KustoFacts
