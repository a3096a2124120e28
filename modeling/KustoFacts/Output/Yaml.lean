import KustoFacts.Output.KeyOrder
import KustoFacts.Output.Writer
import KustoFacts.Yaml.Writer

/-!
    Facts as YAML documents: a map with an entry for each part, joins in the order of keys. -/

namespace KustoFacts

namespace FactsDocument

/-- Joins as the entries of a YAML map. -/
def yamlJoins (joins : Joins) : Bytes :=
  match joins.entries with
  | [] => bytes "joins: \x7b\x7d\n"
  | entries =>
    bytes "joins:\n" ++
      (KeyOrder.sort entries).flatMap fun (kind, set) => Yaml.listEntry 2 kind set.items

/-- Facts as a YAML document. -/
def yamlText (d : FactsDocument) : Bytes :=
  let f := d.facts
  Yaml.scalarEntry (bytes "id") f.id ++
    Yaml.listEntry 0 (bytes "functionCalls") f.functionCalls.items ++ yamlJoins f.joins ++
    Yaml.listEntry 0 (bytes "operators") f.operators.items ++
    Yaml.listEntry 0 (bytes "tables") f.tables.items

end FactsDocument

/-- A writer that has written nothing. -/
def OutputWriter.new (format : OutputFormat) : OutputWriter := .withYaml FactsDocument.yamlText format

end KustoFacts
