import KustoFacts.Text.Lowercase

/-!
    The vocabulary of join kinds. A kind is recognised in any case and under its other names. -/

namespace KustoFacts.JoinKind

/-- A join that names no kind. -/
def usual : Bytes := bytes "inner"

/-- The kind a lookup counts as. -/
def lookup : Bytes := bytes "leftouter"

/-- The kind a union counts as. -/
def union : Bytes := bytes "union"

/-- Every name of a kind with the kind's own name. -/
def vocabulary : List (Bytes × Bytes) :=
  [("innerunique", "innerunique"), ("inner", "inner"), ("leftouter", "leftouter"),
    ("rightouter", "rightouter"), ("fullouter", "fullouter"), ("leftsemi", "leftsemi"),
    ("rightsemi", "rightsemi"), ("leftanti", "leftanti"), ("anti", "leftanti"),
    ("leftantisemi", "leftanti"), ("rightanti", "rightanti"),
    ("rightantisemi", "rightanti")].map fun (a, b) => (bytes a, bytes b)

/-- The kind a text names, if it names one. -/
def known? (text : Bytes) : Option Bytes := vocabulary.lookup (lowercase text)

/-- The kind a text names; a text outside of the vocabulary is only put into small letters. -/
def normalize (text : Bytes) : Bytes := (known? text).getD (lowercase text)

end KustoFacts.JoinKind
