import KustoFacts.Json.Value
import KustoFacts.Log.Level
import KustoFacts.Text.Blank
import KustoFacts.Text.Quoted

/-!
    Log records as lines, in text or in JSON. Lines carry no time. -/

namespace KustoFacts

/-- The formats of a log. -/
inductive LogFormat where
  | text
  | json
  deriving DecidableEq, Repr

namespace LogFormat

/-- The format of a name. -/
def ofName? (name : Bytes) : Option LogFormat :=
  if name = bytes "text" then some .text else if name = bytes "json" then some .json else none

/-- The complaint about a name that no format has. -/
def unknown (name : Bytes) : Bytes :=
  bytes "unknown log format " ++ Quoted.text name ++ bytes " (want text or json)"

end LogFormat

/-! ### Records from loose arguments -/

/-- The name of a value that has none. -/
def namelessKey : Bytes := bytes "!BADKEY"

/-- Arguments paired into fields: a text names the value after it, and anything else, like a text at
    the end, is a value without a name. -/
def LogRecord.pair : List LogValue → List (Bytes × LogValue)
  | [] => []
  | [v] => [(namelessKey, v)]
  | .text name :: v :: rest => (name, v) :: pair rest
  | v :: w :: rest => (namelessKey, v) :: pair (w :: rest)

/-! ### Lines -/

namespace LogLine

/-- Whether a unit keeps a text from standing without quotes. -/
def forcesQuotes : Glyph → Bool
  | .stray _ => true
  | .char code =>
    if code < 0x80 then code ≤ 0x20 || code = doubleQuote.toNat || code = Char.toNat '='
    else code = Utf8.replacement || isBlankCode code || !isPrintable code

/-- A text in a line of text: in quotes where it has to be. -/
def word (t : Bytes) : Bytes :=
  if t = [] || (Utf8.glyphs t).any forcesQuotes then Quoted.text t else t

/-- A value in a line of text. -/
def wordOf : LogValue → Bytes
  | .null => bytes "<nil>"
  | .bool b => bytes (if b then "true" else "false")
  | .int n => decimalInt n
  | .text t => word t

/-- A value in a line of JSON. -/
def jsonOf : LogValue → Json
  | .null => .null
  | .bool b => .bool b
  | .int n => .ofInt n
  | .text t => .string t

/-- The fields that a line shows: all but those with neither name nor value. -/
def shown (fields : List (Bytes × LogValue)) : List (Bytes × LogValue) :=
  fields.filter fun (name, v) => name ≠ [] || v ≠ .null

/-- A record as a line of text. -/
def text (r : LogRecord) : Bytes :=
  let field (name value : Bytes) : Bytes := word name ++ byteOf '=' :: value
  let fields := field (bytes "level") (word r.level.name) :: field (bytes "msg") (word r.message) ::
    (shown r.fields).map fun (name, v) => field name (wordOf v)
  Bytes.joinWith [spaceByte] fields ++ [lineFeed]

/-- A record as a line of JSON. -/
def json (r : LogRecord) : Bytes :=
  let members := (bytes "level", Json.string r.level.name) :: (bytes "msg", .string r.message) ::
    (shown r.fields).map fun (name, v) => (name, jsonOf v)
  (Json.object members).render .log ++ [lineFeed]

end LogLine

/-- A log: the least level it shows, and its format. -/
structure Logger where
  level : LogLevel
  format : LogFormat
  deriving DecidableEq, Repr

namespace Logger

/-- The logger for a level and a format given by name; the level is looked at first. -/
def ofNames (level format : Bytes) : Except Bytes Logger :=
  match LogLevel.ofText? level with
  | none => .error (LogLevel.invalid level)
  | some l =>
    match LogFormat.ofName? format with
    | none => .error (LogFormat.unknown format)
    | some f => .ok ⟨l, f⟩

/-- The line of a record. -/
def line (l : Logger) (r : LogRecord) : Bytes :=
  match l.format with
  | .text => LogLine.text r
  | .json => LogLine.json r

/-- The text of several records: a line for each that is severe enough. -/
def text (l : Logger) (records : List LogRecord) : Bytes :=
  (records.filter fun r => l.level ≤ r.level).flatMap l.line

end Logger
end KustoFacts
