import KustoFacts.Settings.Load

/-!
    The flags of the command, and the text of its help. -/

namespace KustoFacts.Command

/-- The name of the command. -/
def name : String := "kql-extract"

/-- The version of the command. -/
def version : String := "0.1.0"

/-- The flags that ask about the command itself. -/
def aboutFlags : List Flag :=
  [⟨"help", some 'h', .switch, "help for kql-extract", none⟩,
    ⟨"version", some 'v', .switch, "version for kql-extract", none⟩]

/-- All flags of the command. -/
def flags : List Flag := runFlags ++ settingFlags ++ aboutFlags

/-- What the help calls the value of a flag. -/
def kindName : FlagKind → String
  | .text => " string"
  | .int => " int"
  | .duration => " duration"
  | .switch => ""

/-- A flag's names and its kind of value. -/
def flagHead (f : Flag) : String :=
  let letter :=
    match f.letter with
    | some c => "  -" ++ String.singleton c ++ ", --"
    | none => "      --"
  letter ++ f.name ++ kindName f.kind

/-- The line of a flag, its usage in a given column. -/
def flagLine (column : Nat) (f : Flag) : String :=
  let head := flagHead f
  let usage :=
    match f.default with
    | some d => f.usage ++ " (default " ++ d ++ ")"
    | none => f.usage
  head ++ String.ofList (List.replicate (column - head.length) ' ') ++ usage ++ "\n"

/-- The lines of all flags, by name. -/
def flagLines : String :=
  let sorted := flags.mergeSort fun f g => f.name ≤ g.name
  let widest := (sorted.map fun f => (flagHead f).length).foldl max 0
  String.join (sorted.map (flagLine (widest + 3)))

/-- What the command is for. -/
def purpose : String :=
  "Extract metadata from Kusto Query Language queries.\n\n" ++
    "With FILE, the query text in FILE is extracted once. Without it, records of\n" ++
    "the form <id>,<base64 query text> are read line by line from stdin (or\n--input) " ++
    "and one result is written per record.\n"

/-- The help. -/
def help : Bytes :=
  bytes (purpose ++ "\nUsage:\n  " ++ name ++ " [FILE] [flags]\n\nFlags:\n" ++ flagLines)

/-- The answer to a question for the version. -/
def versionLine : Bytes := bytes (name ++ " version " ++ version ++ "\n")

end KustoFacts.Command
