import KustoFacts.Settings.Tree
import KustoFacts.Yaml.Node

/-!
    Settings from YAML documents. Maps become sections, and lists have no structure here. A document
    that grows too much by its aliases is refused before it is taken apart. -/

namespace KustoFacts

/-! ### How much comes from aliases -/

/-- How many nodes have been looked at, and how many of these behind aliases. -/
structure Expansion where
  nodes : Nat
  aliased : Nat
  deriving DecidableEq, Repr

namespace Expansion

/-- The part of a number of nodes that may come from aliases, of which 360000000 make the whole: 99
    of a hundred up to 400000 nodes, from there evenly less, and 10 from 4000000 nodes on. -/
def share (nodes : Nat) : Nat := 99 * 3600000 - 89 * min (nodes - 400000) 3600000

/-- Whether too much comes from aliases. -/
def excessive (e : Expansion) : Bool :=
  100 < e.aliased && 1000 < e.nodes && e.nodes * share e.nodes < e.aliased * 360000000

end Expansion

/-- Takes part of a document apart; there may be a fault. -/
abbrev Decode := StateT Expansion Option

namespace Decode

/-- Counts a node. -/
def visit (aliased : Bool) : Decode Unit := do
  modify fun e => ⟨e.nodes + 1, if aliased then e.aliased + 1 else e.aliased⟩
  guard (!(← get).excessive)

/-! ### Sections -/

/-- The name that a key gives. Keys are scalars; one that stands for no value gives `nameless`. -/
def name (nameless : Option Bytes) (aliased : Bool) : Yaml.Node → Decode (Option Bytes)
  | .alias _ n => do
    visit aliased
    name nameless true n
  | key => do
    visit aliased
    match key.scalar? with
    | none => failure
    | some (v, text) => return if v = .null then nameless else some text

/-- Looks at all keys of a map once more if it takes in others, so as to know its own names. -/
def names (aliased : Bool) (entries : List (Yaml.Node × Yaml.Node)) : Decode Unit :=
  if entries.any fun e => e.1.isMerge then entries.forM fun e => discard (name none aliased e.1)
  else return

/-- The value of a scalar. -/
def value : Yaml.PlainValue × Bytes → SettingValue
  | (.null, _) => .null
  | (.bool b, _) => .bool b
  | (.int n, _) => .int n
  | (.real d, _) => .real d
  | (.timestamp, _) => .timestamp
  | (.text, text) => .text text

mutual

/-- The tree of a node. In the root, and in maps with texts for keys, a key that stands for no value
    is left out with all that belongs to it. -/
def tree (root aliased : Bool) : Yaml.Node → Decode SettingTree
  | .scalar tag plain text => do
    visit aliased
    match Yaml.scalarValue? tag plain text with
    | none => failure
    | some v => return .value (value v)
  | .list items => do
    visit aliased
    trees aliased items
    return .value .list
  | .map entries => do
    visit aliased
    guard (Yaml.Node.keysDiffer entries)
    let nameless :=
      if root || entries.all fun e => e.1.isText then none else some (bytes "<nil>")
    let own ← ownEntries nameless aliased false [] entries
    names aliased entries
    return .group (← mergedEntries nameless aliased own entries)
  | .alias _ n => do
    visit aliased
    tree false true n
  | .loop _ _ => failure

/-- Looks at the items of a list. -/
def trees (aliased : Bool) : List Yaml.Node → Decode Unit
  | [] => return
  | n :: rest => do
    let _ ← tree false aliased n
    trees aliased rest

/-- The own entries of a map, put to others; what is taken in does not replace what is there. -/
def ownEntries (nameless : Option Bytes) (aliased taken : Bool) (done : SettingEntries) :
    List (Yaml.Node × Yaml.Node) → Decode SettingEntries
  | [] => return done
  | (key, node) :: rest => do
    if key.isMerge then ownEntries nameless aliased taken done rest
    else
      match ← name nameless aliased key with
      | none => ownEntries nameless aliased taken done rest
      | some name =>
        if taken && (done.lookup name).isSome then ownEntries nameless aliased taken done rest
        else
          let t ← tree false aliased node
          ownEntries nameless aliased taken (done.put name t) rest

/-- The entries that a merge key brings in, put to others. -/
def mergedEntries (nameless : Option Bytes) (aliased : Bool) (done : SettingEntries) :
    List (Yaml.Node × Yaml.Node) → Decode SettingEntries
  | [] => return done
  | (key, node) :: rest =>
    if key.isMerge then sourceEntries nameless aliased true done node
    else mergedEntries nameless aliased done rest

/-- The entries of a map to be taken in, or of a list of such maps, put to others. -/
def sourceEntries (nameless : Option Bytes) (aliased lists : Bool) (done : SettingEntries) :
    Yaml.Node → Decode SettingEntries
  | .map entries => do
    visit aliased
    guard (Yaml.Node.keysDiffer entries)
    let own ← ownEntries nameless aliased true done entries
    mergedEntries nameless aliased own entries
  | .alias _ n => do
    visit aliased
    sourceEntries nameless true false done n
  | .list items => if lists then sourcesEntries nameless aliased done items else failure
  | _ => failure

/-- The entries of several maps to be taken in, put to others. -/
def sourcesEntries (nameless : Option Bytes) (aliased : Bool) (done : SettingEntries) :
    List Yaml.Node → Decode SettingEntries
  | [] => return done
  | n :: rest => do
    let done ← sourceEntries nameless aliased false done n
    sourcesEntries nameless aliased done rest

end
end Decode

/-- The tree that the root of a document describes: a map, or nothing at all. The document itself
    counts as a node. -/
def SettingTree.ofRoot? : Yaml.Node → Option SettingTree
  | .map entries => ((Decode.tree true false (.map entries)).run ⟨1, 0⟩).map (·.1)
  | root => if root.scalar?.any (·.1 = .null) then some empty else none

end KustoFacts
