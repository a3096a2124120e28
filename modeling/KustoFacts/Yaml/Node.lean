import KustoFacts.Text.Base64
import KustoFacts.Yaml.Plain

/-!
    YAML documents as trees. A scalar keeps its text, its tag and whether it is plain, since these
    decide together what it stands for. An alias carries the node it names; inside of that node it
    does so once, and from there on marks a loop. A map may take in the entries of other maps by a
    merge key. -/

namespace KustoFacts.Yaml

/-- A node of a document. -/
inductive Node where
  | scalar (tag : Option Bytes) (plain : Bool) (text : Bytes)
  | list (items : List Node)
  | map (entries : List (Node × Node))
  | alias (name : Bytes) (target : Node)
  /-- An alias inside of the node it names, which is that of the anchor with a given number. -/
  | loop (name : Bytes) (anchor : Nat)
  deriving Repr

/-! ### Scalars -/

/-- What the tags of the standard types begin with. -/
def standardStem : Bytes := bytes "tag:yaml.org,2002:"

/-- The name of a standard type that a tag gives. -/
def standardType? (tag : Bytes) : Option Bytes :=
  Bytes.after? standardStem tag <|> Bytes.after? (bytes "!!") tag

/-- The sign of a merge key. -/
def mergeSign : Bytes := bytes "<<"

/-- What a scalar of a standard type stands for; an integer serves as a number with a fraction. -/
def PlainValue.ofType? (type : String) (text : Bytes) : Option PlainValue :=
  match type, PlainValue.ofText text with
  | "null", .null => some .null
  | "bool", .bool b => some (.bool b)
  | "int", .int n => some (.int n)
  | "float", .real d => some (.real d)
  | "float", .int n =>
    if n < (halfWordCount : Int) then (Double.ofRatio? (n < 0) n.natAbs 1).map .real else none
  | "timestamp", .timestamp => some .timestamp
  | _, _ => none

/-- What a scalar stands for, and its text. Without a tag a plain scalar stands for what its text
    looks like, and any other for its text. A tag of a standard type demands a text of that type;
    other tags make no difference. -/
def scalarValue? (tag : Option Bytes) (plain : Bool) (text : Bytes) : Option (PlainValue × Bytes) :=
  match tag with
  | none => some (if plain && text ≠ mergeSign then .ofText text else .text, text)
  | some tag =>
    match standardType? tag with
    | none => some (.text, text)
    | some type =>
      if type = bytes "binary" then
        (Base64.decode text).toOption.map fun data => (.text, data)
      else
        match ["null", "bool", "int", "float", "timestamp"].find? fun t => bytes t = type with
        | none => some (.text, text)
        | some t => (PlainValue.ofType? t text).map (·, text)

namespace Node

/-- The scalar that stands where nothing is written. -/
def nothing : Node := .scalar none true []

mutual

/-- A node in which each loop of an anchor stands for a given node. -/
def unroll (anchor : Nat) (whole : Node) : Node → Node
  | .scalar tag plain text => .scalar tag plain text
  | .list items => .list (unrollItems anchor whole items)
  | .map entries => .map (unrollEntries anchor whole entries)
  | .alias name n => .alias name (unroll anchor whole n)
  | .loop name a => if a = anchor then .alias name whole else .loop name a

/-- The same for the items of a list. -/
def unrollItems (anchor : Nat) (whole : Node) : List Node → List Node
  | [] => []
  | n :: rest => unroll anchor whole n :: unrollItems anchor whole rest

/-- The same for the entries of a map. -/
def unrollEntries (anchor : Nat) (whole : Node) : List (Node × Node) → List (Node × Node)
  | [] => []
  | (key, n) :: rest =>
    (unroll anchor whole key, unroll anchor whole n) :: unrollEntries anchor whole rest

end

/-- Two keys of one map clash when they are scalars of the same text, aliases of the same name, or
    both lists, or both maps. -/
def clashes : Node → Node → Bool
  | .scalar _ _ a, .scalar _ _ b => a = b
  | .list _, .list _ => true
  | .map _, .map _ => true
  | .alias a _, .alias b _ => a = b
  | .alias a _, .loop b _ => a = b
  | .loop a _, .alias b _ => a = b
  | .loop a _, .loop b _ => a = b
  | _, _ => false

/-- Whether no two keys of a map clash. -/
def keysDiffer : List (Node × Node) → Bool
  | [] => true
  | (key, _) :: rest => !(rest.any fun e => key.clashes e.1) && keysDiffer rest

/-- Whether a key takes in the entries of other maps. -/
def isMerge : Node → Bool
  | .scalar none plain text => plain && text = mergeSign
  | .scalar (some tag) _ text => text = mergeSign && standardType? tag = some (bytes "merge")
  | _ => false

/-- Whether a key stands for a text, or for those of other maps. -/
def isText : Node → Bool
  | .scalar none plain text => !plain || text = mergeSign || PlainValue.ofText text = .text
  | .scalar (some tag) _ _ =>
    standardType? tag = some (bytes "str") || standardType? tag = some (bytes "merge")
  | .alias _ n => n.isText
  | _ => false

/-- The value of a scalar, behind aliases or not, with its text; `none` if it has none or the node
    is no scalar. -/
def scalar? : Node → Option (PlainValue × Bytes)
  | .scalar tag plain text => scalarValue? tag plain text
  | .alias _ n => n.scalar?
  | _ => none

/-- Whether a node is tagged or written as no value. -/
def isNull : Node → Bool
  | .scalar none plain text => plain && PlainValue.ofText text = .null
  | .scalar (some tag) _ _ => standardType? tag = some (bytes "null")
  | .alias _ n => n.isNull
  | _ => false

end Node

/-! ### Maps -/

/-- The entries of a map by name: its own, in order, and those it takes in from others, of which
    the first of a name counts. -/
structure Members where
  own : List (Bytes × Node)
  merged : List (Bytes × Node)

/-- The entry of a name, which is empty where there is none; `none` if the map has two of its own,
    under different keys. -/
def Members.entry? (m : Members) (name : Bytes) : Option Node :=
  match m.own.filter (·.1 = name) with
  | [] => some ((m.merged.lookup name).getD (.scalar none true []))
  | [e] => some e.2
  | _ => none

namespace Node

/-- The own entries of a map by name. Keys are scalars; one that stands for no value gets the name
    `nameless`, or is left out. -/
def ownMembers? (nameless : Option Bytes) (entries : List (Node × Node)) :
    Option (List (Bytes × Node)) := do
  let named ← (entries.filter fun e => !e.1.isMerge).mapM fun (key, node) => do
    let (v, text) ← key.scalar?
    return ((if v = .null then nameless else some text), node)
  return named.filterMap fun (name, node) => name.map (·, node)

mutual

/-- The entries that a merge key brings in. -/
def mergedMembers? (nameless : Option Bytes) : List (Node × Node) → Option (List (Bytes × Node))
  | [] => some []
  | (key, node) :: rest =>
    if key.isMerge then mergeSource? nameless true node else mergedMembers? nameless rest

/-- The entries of a map to be taken in, or of a list of such maps. -/
def mergeSource? (nameless : Option Bytes) (lists : Bool) : Node → Option (List (Bytes × Node))
  | .map entries =>
    if keysDiffer entries then do
      let own ← ownMembers? nameless entries
      let merged ← mergedMembers? nameless entries
      return own ++ merged
    else none
  | .alias _ n => mergeSource? nameless false n
  | .list items => if lists then mergeSources? nameless items else none
  | _ => none

/-- The entries of several maps to be taken in. -/
def mergeSources? (nameless : Option Bytes) : List Node → Option (List (Bytes × Node))
  | [] => some []
  | n :: ns => do
    let first ← mergeSource? nameless false n
    let others ← mergeSources? nameless ns
    return first ++ others

end

/-- The entries of a map, and of the maps it takes in, by name. -/
def members? (nameless : Option Bytes) (entries : List (Node × Node)) : Option Members := do
  if !keysDiffer entries then none
  let own ← ownMembers? nameless entries
  let merged ← mergedMembers? nameless entries
  return ⟨own, merged⟩

end Node
end KustoFacts.Yaml
