import KustoFacts.Log.Line
import KustoFacts.Output.Writer
import KustoFacts.Settings.Flag
import KustoFacts.Settings.Tree

/-!
    The settings of a run, read from a tree and checked in a fixed order. How documents become trees,
    and what a value is taken for, are rules of their own. In the usual ones values are taken
    generously: a number may be written as text, a truth value may be a number, and a missing value
    is the zero of its type. -/

namespace KustoFacts

/-- The settings of a run. -/
structure Settings where
  output : Bytes
  input : Bytes
  workers : Int
  cacheSize : Int
  catalog : Bytes
  logLevel : Bytes
  logFormat : Bytes
  timeout : Duration
  normalizeJoinKinds : Bool
  deriving DecidableEq, Repr

/-! ### Values -/

namespace SettingValue

/-- A value taken as a text. -/
def toText? : SettingValue → Option Bytes
  | .null => some []
  | .bool b => some (bytes (if b then "1" else "0"))
  | .int n => some (decimalInt n)
  | .real d => some d.text
  | .text t => some t
  | .duration d => some (decimalInt d.nanoseconds)
  | .timestamp | .list => none

/-- A value taken as an integer. -/
def toInt? : SettingValue → Option Int
  | .null => some 0
  | .bool b => some (if b then 1 else 0)
  | .int n => some (wrapped n)
  | .real d => some d.toInt64
  | .text t => if t = [] then some 0 else (Spelling.literal.signed t).toOption
  | .duration d => some d.nanoseconds
  | .timestamp | .list => none

/-- A value taken as a truth value. -/
def toBool? : SettingValue → Option Bool
  | .null => some false
  | .bool b => some b
  | .int n => some (n ≠ 0)
  | .real d => some d.isNonzero
  | .text t => if t = [] then some false else truth? t
  | .duration d => some (d.nanoseconds ≠ 0)
  | .timestamp | .list => none

/-- A value taken as a duration; a number counts nanoseconds. -/
def toDuration? : SettingValue → Option Duration
  | .text t => (Duration.read t).toOption
  | .duration d => some d
  | v => v.toInt?.map Duration.mk

end SettingValue

/-! ### Rules -/

/-- How settings are read: documents and values at paths as trees, and trees as values of the types
    that settings have. -/
structure SettingRules where
  /-- The tree that a document describes. -/
  document? : Bytes → Option SettingTree
  /-- The tree of values at paths, of which the later come after the earlier. -/
  nested : List (List Bytes × SettingValue) → SettingTree
  /-- The value that a tree has for a path. -/
  find? : SettingTree → List Bytes → Option SettingValue
  text? : SettingValue → Option Bytes
  int? : SettingValue → Option Int
  truth? : SettingValue → Option Bool
  duration? : SettingValue → Option Duration

/-- The value that a tree has for a path, taken as a type. -/
def SettingRules.take? {α : Type} (rules : SettingRules) (as? : SettingValue → Option α)
    (tree : SettingTree) (path : List String) : Option α :=
  (rules.find? tree (path.map bytes)).bind as?

namespace Settings

/-- The settings that a tree holds; `none` if a value cannot be taken as its type. -/
def ofTree? (rules : SettingRules) (tree : SettingTree) : Option Settings := do
  return {
    output := ← rules.take? rules.text? tree ["output"]
    input := ← rules.take? rules.text? tree ["input"]
    workers := ← rules.take? rules.int? tree ["workers"]
    cacheSize := ← rules.take? rules.int? tree ["cache_size"]
    catalog := ← rules.take? rules.text? tree ["catalog"]
    logLevel := ← rules.take? rules.text? tree ["log", "level"]
    logFormat := ← rules.take? rules.text? tree ["log", "format"]
    timeout := ← rules.take? rules.duration? tree ["extract", "timeout"]
    normalizeJoinKinds := ← rules.take? rules.truth? tree ["extract", "normalize_join_kinds"] }

end Settings

/-! ### Checks -/

/-- Why settings cannot be used. -/
inductive SettingsFault where
  | output (name : Bytes)
  | workers (n : Int)
  | cacheSize (n : Int)
  | timeout (d : Duration)
  | logLevel (text : Bytes)
  | logFormat (name : Bytes)
  deriving DecidableEq, Repr

/-- The wording of a fault. -/
def SettingsFault.message : SettingsFault → Bytes
  | .output name =>
    OutputFormat.unknown name ++ bytes " (want one of " ++ OutputFormat.names ++ bytes ")"
  | .workers n => bytes "workers must be at least 1, got " ++ decimalInt n
  | .cacheSize n => bytes "cache_size must not be negative, got " ++ decimalInt n
  | .timeout d => bytes "extract.timeout must not be negative, got " ++ d.text
  | .logLevel text => LogLevel.invalid text
  | .logFormat name => LogFormat.unknown name

/-- What a run works with once its settings have been checked. -/
structure Plan where
  settings : Settings
  format : OutputFormat
  logger : Logger
  deriving DecidableEq, Repr

/-- The plan that settings make, or the first thing that is wrong with them. -/
def Settings.check (s : Settings) : Except SettingsFault Plan := do
  let some format := OutputFormat.ofName? s.output | throw (.output s.output)
  if s.workers < 1 then throw (.workers s.workers)
  if s.cacheSize < 0 then throw (.cacheSize s.cacheSize)
  if s.timeout.nanoseconds < 0 then throw (.timeout s.timeout)
  let some level := LogLevel.ofText? s.logLevel | throw (.logLevel s.logLevel)
  let some logFormat := LogFormat.ofName? s.logFormat | throw (.logFormat s.logFormat)
  return ⟨s, format, ⟨level, logFormat⟩⟩

end KustoFacts
