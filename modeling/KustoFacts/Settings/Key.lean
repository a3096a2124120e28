import KustoFacts.Text.Lowercase

/-!
    The names of settings. A key is a name, or a section and a name with a point between them;
    variables of the environment and flags have spellings of their own. -/

namespace KustoFacts.SettingKey

/-- What the variables begin with that hold settings. -/
def variableStart : Bytes := bytes "KQL_EXTRACT_"

/-- The sections. -/
def sections : List Bytes := [bytes "log", bytes "extract"]

/-- The key that a variable sets: its name in small letters without the common beginning, and a
    point for the first underscore after the name of a section. -/
def ofVariable (name : Bytes) : Bytes :=
  let key := lowercase ((Bytes.after? variableStart name).getD name)
  let sectioned := sections.findSome? fun s =>
    (Bytes.after? (s ++ bytes "_") key).map fun rest => s ++ bytes "." ++ rest
  sectioned.getD key

/-- The flags whose keys are not their names. -/
def renamedFlags : List (String × String) :=
  [("log-level", "log.level"), ("log-format", "log.format"), ("timeout", "extract.timeout"),
    ("normalize-join-kinds", "extract.normalize_join_kinds")]

/-- The key that a flag sets: its name with underscores for hyphens, but for a few. -/
def ofFlag (name : Bytes) : Bytes :=
  match renamedFlags.find? fun e => bytes e.1 = name with
  | some e => bytes e.2
  | none => Bytes.exchange (byteOf '-') (byteOf '_') name

/-- A name without regard to case: with small letters for capitals, for the long s and for the sign
    of the kelvin. -/
def folded : Bytes → Bytes
  | [] => []
  | 0xC5 :: 0xBF :: rest => byteOf 's' :: folded rest
  | 0xE2 :: 0x84 :: 0xAA :: rest => byteOf 'k' :: folded rest
  | b :: rest => (if byteOf 'A' ≤ b && b ≤ byteOf 'Z' then b + 0x20 else b) :: folded rest

/-- The path of a key. -/
def path (key : Bytes) : List Bytes := Bytes.splitOn (byteOf '.') key

end KustoFacts.SettingKey
