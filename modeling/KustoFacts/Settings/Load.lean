import KustoFacts.Files
import KustoFacts.Settings.Basic
import KustoFacts.Settings.Document
import KustoFacts.Settings.Key
import KustoFacts.Yaml.Reader

/-!
    Settings from their four sources. From the lowest to the highest these are the defaults, a file,
    the variables of the environment, and the flags that were given; each is laid over those below
    it. -/

namespace KustoFacts

/-- A file of settings: its name as given, and what was found there. -/
structure SettingsFile where
  name : Bytes
  contents : Except FileFault Bytes

/-- Why there are no settings. -/
inductive SettingsError where
  /-- The file cannot be had, or its document cannot be read. -/
  | file (name : Bytes) (why : Option FileFault)
  | undecodable
  | invalid (why : SettingsFault)
  deriving DecidableEq, Repr

namespace SettingsError

/-- The wording of an error without what lies behind it. -/
def headline : SettingsError → Bytes
  | .file name _ => bytes "error reading config file " ++ name
  | .undecodable => bytes "unable to decode config"
  | .invalid why => bytes "invalid configuration: " ++ why.message

/-- The wording of an error. -/
def message : SettingsError → Bytes
  | .file name (some why) =>
    (SettingsError.file name none).headline ++ bytes ": " ++ why.message (Path.clean name)
  | e => e.headline

end SettingsError

/-- The files that are looked for when none is named, in this order. -/
def defaultSettingsFiles : List Bytes := [bytes "kql-extract.yaml", bytes "kql-extract.yml"]

/-- The rules in use. -/
def SettingRules.usual : SettingRules where
  document? text := (Yaml.read? text).bind SettingTree.ofRoot?
  nested := SettingTree.ofPaths
  find? := SettingTree.found?
  text? := SettingValue.toText?
  int? := SettingValue.toInt?
  truth? := SettingValue.toBool?
  duration? := SettingValue.toDuration?

/-! ### Sources -/

namespace SettingTree

/-- The values that hold when nothing else is said, with their paths. -/
def defaultValues : List (List Bytes × SettingValue) :=
  [([bytes "output"], .text OutputFormat.json.name), ([bytes "input"], .text []),
    ([bytes "workers"], .int 1), ([bytes "cache_size"], .int 1024),
    ([bytes "catalog"], .text []), ([bytes "log", bytes "level"], .text (bytes "warn")),
    ([bytes "log", bytes "format"], .text (bytes "text")),
    ([bytes "extract", bytes "timeout"], .text (bytes "0s")),
    ([bytes "extract", bytes "normalize_join_kinds"], .bool false)]

/-- What holds when nothing else is said. -/
def defaults (rules : SettingRules) : SettingTree := rules.nested defaultValues

/-- What a file says. -/
def ofFile (rules : SettingRules) (file : SettingsFile) : Except SettingsError SettingTree :=
  match file.contents with
  | .error why => .error (.file file.name (some why))
  | .ok text =>
    match rules.document? text with
    | some tree => .ok tree
    | none => .error (.file file.name none)

/-- What variables say. Only those count that begin as variables with settings do, and whose key is
    not empty. -/
def ofVariables (rules : SettingRules) (environment : List (Bytes × Bytes)) : SettingTree :=
  rules.nested (environment.filterMap fun (name, text) =>
    if !name.beginsWith SettingKey.variableStart then none
    else
      match SettingKey.ofVariable name with
      | [] => none
      | key => some (SettingKey.path key, .text text))

/-- The value of a flag. -/
def ofFlagValue : FlagValue → SettingValue
  | .text t => .text t
  | .int n => .int n
  | .duration d => .duration d
  | .switch b => .bool b

/-- The flags that set nothing. -/
def otherFlags : List String := ["config", "id", "help", "version"]

/-- What flags say, given latest first. -/
def ofFlags (rules : SettingRules) (given : List (String × FlagValue)) : SettingTree :=
  rules.nested (given.reverse.filterMap fun (name, v) =>
    if otherFlags.contains name then none
    else some (SettingKey.path (SettingKey.ofFlag (bytes name)), ofFlagValue v))

/-- Trees laid over each other, the lowest first. -/
def layered (layers : List SettingTree) : SettingTree :=
  layers.foldl (fun lower upper => upper.laidOver lower) empty

end SettingTree

/-- The flags that set settings. -/
def settingFlags : List Flag :=
  [⟨"output", some 'o', .text, "Output format (json, yaml)", some "\"json\""⟩,
    ⟨"input", some 'i', .text, "Read records from file instead of stdin", none⟩,
    ⟨"workers", some 'w', .int, "Number of records extracted concurrently", some "1"⟩,
    ⟨"cache-size", none, .int, "Number of results memoized by query text (0 disables)",
      some "1024"⟩,
    ⟨"catalog", none, .text, "YAML file listing known tables", none⟩,
    ⟨"log-level", none, .text, "Log level (debug, info, warn, error)", some "\"warn\""⟩,
    ⟨"log-format", none, .text, "Log format (text, json)", some "\"text\""⟩,
    ⟨"timeout", none, .duration, "Per-query extraction timeout (0 disables)", none⟩,
    ⟨"normalize-join-kinds", none, .switch, "Map join kind aliases to canonical names", none⟩]

/-- The flags that name the file of settings and the id of a single query. -/
def runFlags : List Flag :=
  [⟨"config", some 'c', .text, "config file (default ./kql-extract.yaml)", none⟩,
    ⟨"id", none, .text, "result id in single file mode (default random UUID)", none⟩]

/-- The plan that all sources together make under given rules. -/
def Plan.loadWith (rules : SettingRules) (file : Option SettingsFile)
    (environment : List (Bytes × Bytes)) (given : List (String × FlagValue)) :
    Except SettingsError Plan := do
  let fileTree ←
    match file with
    | none => pure SettingTree.empty
    | some f => SettingTree.ofFile rules f
  let tree := SettingTree.layered
    [.defaults rules, fileTree, .ofVariables rules environment, .ofFlags rules given]
  let some settings := Settings.ofTree? rules tree | throw .undecodable
  settings.check.mapError .invalid

/-- The plan that all sources together make. -/
def Plan.load (file : Option SettingsFile) (environment : List (Bytes × Bytes))
    (given : List (String × FlagValue)) : Except SettingsError Plan :=
  Plan.loadWith .usual file environment given

end KustoFacts
