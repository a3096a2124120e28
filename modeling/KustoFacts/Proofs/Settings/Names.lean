import KustoFacts.Proofs.Settings.Layers

/-!
    The settings by name: where each of them stands in a tree, which flag gives it, and what it is
    taken as. -/

namespace KustoFacts

/-- The settings by their names. -/
inductive SettingName where
  | output
  | input
  | workers
  | cacheSize
  | catalog
  | logLevel
  | logFormat
  | timeout
  | normalizeJoinKinds
  deriving DecidableEq, Repr

namespace SettingName

/-- All settings. -/
def all : List SettingName :=
  [output, input, workers, cacheSize, catalog, logLevel, logFormat, timeout, normalizeJoinKinds]

theorem mem_all (key : SettingName) : key ∈ all := by cases key <;> decide

/-- The sections that a setting is in. -/
def within : SettingName → List Bytes
  | output | input | workers | cacheSize | catalog => []
  | logLevel | logFormat => [bytes "log"]
  | timeout | normalizeJoinKinds => [bytes "extract"]

/-- The name of a setting in its section. -/
def name : SettingName → Bytes
  | output => bytes "output"
  | input => bytes "input"
  | workers => bytes "workers"
  | cacheSize => bytes "cache_size"
  | catalog => bytes "catalog"
  | logLevel => bytes "level"
  | logFormat => bytes "format"
  | timeout => bytes "timeout"
  | normalizeJoinKinds => bytes "normalize_join_kinds"

/-- The path of a setting. -/
def path (key : SettingName) : List Bytes := key.within ++ [key.name]

/-- The flag that gives a setting. -/
def flag : SettingName → String
  | output => "output"
  | input => "input"
  | workers => "workers"
  | cacheSize => "cache-size"
  | catalog => "catalog"
  | logLevel => "log-level"
  | logFormat => "log-format"
  | timeout => "timeout"
  | normalizeJoinKinds => "normalize-join-kinds"

/-- A setting is a value, taken as the type of the setting. -/
def Holds (rules : SettingRules) (s : Settings) (v : SettingValue) : SettingName → Prop
  | output => rules.text? v = some s.output
  | input => rules.text? v = some s.input
  | workers => rules.int? v = some s.workers
  | cacheSize => rules.int? v = some s.cacheSize
  | catalog => rules.text? v = some s.catalog
  | logLevel => rules.text? v = some s.logLevel
  | logFormat => rules.text? v = some s.logFormat
  | timeout => rules.duration? v = some s.timeout
  | normalizeJoinKinds => rules.truth? v = some s.normalizeJoinKinds

/-- Every flag that sets something sets a setting. -/
theorem exists_of_flag {name : String} (h : name ∈ settingFlags.map Flag.name) :
    ∃ key : SettingName, key.flag = name ∧
      SettingKey.path (SettingKey.ofFlag (bytes name)) = key.path := by
  have hflags : ∀ name ∈ settingFlags.map Flag.name, ∃ key ∈ all, key.flag = name ∧
      SettingKey.path (SettingKey.ofFlag (bytes name)) = key.path := by decide
  obtain ⟨key, -, hkey⟩ := hflags name h
  exact ⟨key, hkey⟩

/-- No setting is a section of another one, and their flags differ. -/
theorem path_prefix {key key' : SettingName} (h : key.path <+: key'.path) : key = key' := by
  have hpaths : ∀ key ∈ all, ∀ key' ∈ all, key.path <+: key'.path → key = key' := by decide
  exact hpaths key key.mem_all key' key'.mem_all h

theorem flag_injective {key key' : SettingName} (h : key.flag = key'.flag) : key = key' := by
  have hflags : ∀ key ∈ all, ∀ key' ∈ all, key.flag = key'.flag → key = key' := by decide
  exact hflags key key.mem_all key' key'.mem_all h

theorem not_other (key : SettingName) : SettingTree.otherFlags.contains key.flag = false := by
  cases key <;> decide

theorem length_within (key : SettingName) : key.within.length ≤ 1 := by cases key <;> decide

end SettingName

/-! ### What is taken from a tree -/

/-- Settings are what is found at their paths. -/
theorem SettingName.holds_of_ofTree? {rules : SettingRules} {t : SettingTree} {s : Settings}
    (h : Settings.ofTree? rules t = some s) (key : SettingName) :
    ∃ v, rules.find? t key.path = some v ∧ key.Holds rules s v := by
  simp only [Settings.ofTree?, SettingRules.take?, Option.bind_eq_bind, Option.pure_def,
    Option.bind_eq_some_iff, Option.some.injEq] at h
  obtain ⟨_, ⟨v₁, h₁, r₁⟩, _, ⟨v₂, h₂, r₂⟩, _, ⟨v₃, h₃, r₃⟩, _, ⟨v₄, h₄, r₄⟩, _, ⟨v₅, h₅, r₅⟩, _,
    ⟨v₆, h₆, r₆⟩, _, ⟨v₇, h₇, r₇⟩, _, ⟨v₈, h₈, r₈⟩, _, ⟨v₉, h₉, r₉⟩, rfl⟩ := h
  cases key with
  | output => exact ⟨v₁, h₁, r₁⟩
  | input => exact ⟨v₂, h₂, r₂⟩
  | workers => exact ⟨v₃, h₃, r₃⟩
  | cacheSize => exact ⟨v₄, h₄, r₄⟩
  | catalog => exact ⟨v₅, h₅, r₅⟩
  | logLevel => exact ⟨v₆, h₆, r₆⟩
  | logFormat => exact ⟨v₇, h₇, r₇⟩
  | timeout => exact ⟨v₈, h₈, r₈⟩
  | normalizeJoinKinds => exact ⟨v₉, h₉, r₉⟩

end KustoFacts
