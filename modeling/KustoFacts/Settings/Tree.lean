import KustoFacts.Duration
import KustoFacts.Number.Double
import KustoFacts.Settings.Key

/-!
    Settings as trees. Each source of settings is one tree, and a tree is laid over another by
    merging sections entry by entry and replacing every other value. -/

namespace KustoFacts

/-- A value as a source gives it. -/
inductive SettingValue where
  | null
  | bool (b : Bool)
  | int (n : Int)
  | real (d : Double)
  | text (t : Bytes)
  | duration (d : Duration)
  | timestamp
  | list
  deriving DecidableEq, Repr

/-- A value, or a section with named entries. -/
inductive SettingTree where
  | value (v : SettingValue)
  | group (entries : List (Bytes × SettingTree))
  deriving Repr

/-- Named entries of a section. -/
abbrev SettingEntries := List (Bytes × SettingTree)

namespace SettingEntries

/-- The entries with one of them set. -/
def put (entries : SettingEntries) (name : Bytes) (tree : SettingTree) : SettingEntries :=
  match entries with
  | [] => [(name, tree)]
  | (k, t) :: rest => if k = name then (k, tree) :: rest else (k, t) :: put rest name tree

/-- The entries with the value at a path set. Sections on the way are made; a value in the way is
    passed over, so that the path goes on from where it stands. -/
def place (entries : SettingEntries) (path : List Bytes) (tree : SettingTree) : SettingEntries :=
  match path with
  | [] => entries
  | [name] => entries.put name tree
  | name :: next :: rest =>
    match entries.lookup name with
    | some (.group inner) => entries.put name (.group (place inner (next :: rest) tree))
    | some (.value _) => place entries (next :: rest) tree
    | none => entries.put name (.group (place [] (next :: rest) tree))

/-- The entry under a name in small letters, or else the first one under a name that differs from it
    in case only. -/
def entry? (entries : SettingEntries) (name : Bytes) : Option SettingTree :=
  match entries.lookup name with
  | some tree => some tree
  | none => (entries.find? fun e => SettingKey.folded e.1 = name).map (·.2)

end SettingEntries

namespace SettingTree

mutual

/-- A tree laid over another. -/
def laidOver : (upper lower : SettingTree) → SettingTree
  | .group entries, .group below => .group (entriesOver entries below)
  | upper, _ => upper

/-- Entries laid over others. -/
def entriesOver : (upper lower : SettingEntries) → SettingEntries
  | [], below => below
  | (name, tree) :: rest, below =>
    let merged :=
      match below.lookup name with
      | some lower => tree.laidOver lower
      | none => tree
    entriesOver rest (below.put name merged)

end

/-- The tree with nothing in it. -/
def empty : SettingTree := .group []

/-- The value at a path of names in small letters. Null stands for a missing one; there is none where
    a section is, or where a value other than null stands on the way. -/
def found? : SettingTree → List Bytes → Option SettingValue
  | .value v, [] => some v
  | .group _, [] => none
  | .value v, _ :: _ => if v = .null then some .null else none
  | .group entries, name :: rest =>
    match SettingEntries.entry? entries name with
    | some tree => tree.found? rest
    | none => some .null

/-- A tree from values at paths, a later one over an earlier one. -/
def ofPaths (values : List (List Bytes × SettingValue)) : SettingTree :=
  .group (values.foldl (fun entries (path, v) => SettingEntries.place entries path (.value v)) [])

end SettingTree
end KustoFacts
