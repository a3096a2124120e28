import KustoFacts.Facts.Basic
import KustoFacts.Json.Reader

/-!
    Facts as a JSON document. Reading starts from no facts: members that are missing leave their
    part empty, members that do not belong are passed over, and a member of the wrong type refuses
    the document. Names of members are matched in any case. The joins of a document may be null,
    which is kept apart from there being none. -/

namespace KustoFacts

/-- Facts as a document holds them. -/
structure FactsDocument where
  facts : Facts
  nullJoins : Bool
  deriving DecidableEq

namespace Facts

/-- Facts as the document they are written to. -/
def document (f : Facts) : FactsDocument := ⟨f, false⟩

end Facts

namespace FactsDocument

/-- A document as a JSON value. -/
def json (d : FactsDocument) : Json :=
  match d.facts.json with
  | .object members =>
    .object (members.map fun (name, v) =>
      if d.nullJoins && name = bytes "joins" then (name, .null) else (name, v))
  | v => v

/-! ### Reading -/

/-- The names in a JSON array of strings; null stands for the empty list and, in the list, for the
    empty name. -/
def names? : Json → Option (List Bytes)
  | .null => some []
  | .array items =>
    items.mapM fun
      | .null => some []
      | .string s => some s
      | _ => none
  | _ => none

/-- A set of names from its JSON value. -/
def set? (v : Json) : Option NameSet := (names? v).map NameSet.ofList

/-- A code point with the letters it equals in any case brought to one. -/
def foldCode (code : Nat) : Nat :=
  if 0x41 ≤ code && code ≤ 0x5A then code + 0x20
  else if code = 0x17F then 0x73
  else if code = 0x212A then 0x6B
  else code

/-- The name of a member in any case, brought to one. -/
def foldName (name : Bytes) : Bytes :=
  (Utf8.glyphs name).flatMap fun
    | .char code => Utf8.encode (foldCode code)
    | .stray b => [b]

/-- The entry of a kind set to given targets. -/
def setEntry (joins : Joins) (kind : Bytes) (targets : NameSet) : Joins :=
  (Joins.empty.addAll (joins.entries.filter (·.1 ≠ kind))).add kind targets.items

/-- The joins of a document after a member that gives joins. -/
def readJoins (d : FactsDocument) : Json → Option FactsDocument
  | .null => some { d with facts := { d.facts with joins := .empty }, nullJoins := true }
  | .object members => do
    let joins ← members.foldlM (fun j (kind, v) => (set? v).map (setEntry j kind)) d.facts.joins
    return { d with facts := { d.facts with joins := joins }, nullJoins := false }
  | _ => none

/-- A document after one more member. -/
def readMember (d : FactsDocument) (name : Bytes) (v : Json) : Option FactsDocument :=
  let name := foldName name
  if name = bytes "id" then
    match v with
    | .null => some d
    | .string s => some { d with facts := { d.facts with id := s } }
    | _ => none
  else if name = bytes "functioncalls" then
    (set? v).map fun s => { d with facts := { d.facts with functionCalls := s } }
  else if name = bytes "joins" then d.readJoins v
  else if name = bytes "operators" then
    (set? v).map fun s => { d with facts := { d.facts with operators := s } }
  else if name = bytes "tables" then
    (set? v).map fun s => { d with facts := { d.facts with tables := s } }
  else some d

/-- A document from its JSON value. -/
def ofJson? : Json → Option FactsDocument
  | .null => some (Facts.empty []).document
  | .object members =>
    members.foldlM (fun d (name, v) => d.readMember name v) (Facts.empty []).document
  | _ => none

end FactsDocument
end KustoFacts
