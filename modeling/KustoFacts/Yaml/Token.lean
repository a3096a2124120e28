import KustoFacts.Text.Bytes

/-!
    The tokens of a YAML stream. Blocks that are told by indentation alone have tokens at their
    bounds like those in brackets. -/

namespace KustoFacts.Yaml

/-- A token. -/
inductive Token where
  | streamStart
  | streamEnd
  /-- The version that a directive asks for. -/
  | version (major minor : Nat)
  /-- A handle for tags, and the text it stands for. -/
  | tagHandle (handle stem : Bytes)
  | documentStart
  | documentEnd
  | blockListStart
  | blockMapStart
  | blockEnd
  | openList
  | closeList
  | openMap
  | closeMap
  /-- The dash before an entry of a list. -/
  | dash
  | comma
  /-- A key begins, by a mark or because of the colon after it. -/
  | key
  /-- The colon before a value. -/
  | value
  | alias (name : Bytes)
  | anchor (name : Bytes)
  | tag (handle suffix : Bytes)
  | scalar (plain : Bool) (text : Bytes)
  deriving DecidableEq, Repr

namespace Token

/-- Whether a token ends the content of a document. -/
def endsDocument : Token → Bool
  | .streamEnd | .version _ _ | .tagHandle _ _ | .documentStart | .documentEnd => true
  | _ => false

/-- Whether a token ends an entry of a map told by indentation. -/
def endsMember : Token → Bool
  | .key | .value | .blockEnd => true
  | _ => false

end Token
end KustoFacts.Yaml
