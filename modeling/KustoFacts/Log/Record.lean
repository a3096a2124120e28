import KustoFacts.Text.Bytes

/-!
    Records of a log: a level, a message and named values. -/

namespace KustoFacts

/-- A value in a log record. -/
inductive LogValue where
  | null
  | bool (b : Bool)
  | int (n : Int)
  | text (t : Bytes)
  deriving DecidableEq, Repr

/-- Levels are numbers: the higher, the more severe. -/
abbrev LogLevel := Int

namespace LogLevel

/-- For following every step. -/
def debug : LogLevel := -4

/-- For what is worth knowing. -/
def info : LogLevel := 0

/-- For what may be wrong. -/
def warn : LogLevel := 4

/-- For what failed. -/
def error : LogLevel := 8

/-- The name of a level: the nearest named level below it and the distance from there. -/
def name (level : LogLevel) : Bytes :=
  let near (label : String) (base : LogLevel) : Bytes :=
    let d := level - base
    if d = 0 then bytes label
    else if 0 < d then bytes label ++ byteOf '+' :: decimalInt d
    else bytes label ++ decimalInt d
  if level < info then near "DEBUG" debug
  else if level < warn then near "INFO" info
  else if level < error then near "WARN" warn
  else near "ERROR" error

end LogLevel

/-- One record. -/
structure LogRecord where
  level : LogLevel
  message : Bytes
  fields : List (Bytes × LogValue)
  deriving DecidableEq, Repr

namespace LogRecord

/-- A record for following a step. -/
def debug (message : String) (fields : List (String × LogValue)) : LogRecord :=
  ⟨LogLevel.debug, bytes message, fields.map fun (k, v) => (bytes k, v)⟩

/-- A record of something worth knowing. -/
def info (message : String) (fields : List (String × LogValue)) : LogRecord :=
  ⟨LogLevel.info, bytes message, fields.map fun (k, v) => (bytes k, v)⟩

/-- A record of a failure. -/
def error (message : String) (fields : List (String × LogValue)) : LogRecord :=
  ⟨LogLevel.error, bytes message, fields.map fun (k, v) => (bytes k, v)⟩

end LogRecord
end KustoFacts
