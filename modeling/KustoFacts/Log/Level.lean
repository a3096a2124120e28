import KustoFacts.Log.Record
import KustoFacts.Number.Integer
import KustoFacts.Text.Quoted

/-!
    Levels by name: `debug`, `info`, `warn` or `error` in any case, with a distance from it or
    not. -/

namespace KustoFacts.LogLevel

/-- The names of levels. -/
def named : List (String × LogLevel) :=
  [("debug", debug), ("info", info), ("warn", warn), ("error", error)]

/-- A code point as the small letter that has the same capital; the dotless i shares its capital
    with the i. -/
def sameCapital (code : Nat) : Nat :=
  if 0x41 ≤ code && code ≤ 0x5A then code + 0x20
  else if code = 0x131 then 0x69
  else code

/-- The level of a name in any case. -/
def ofName? (name : Bytes) : Option LogLevel :=
  let codes := (Utf8.codes name).map sameCapital
  (named.find? fun e => (bytes e.1).map UInt8.toNat = codes).map (·.2)

/-- The level that a text names. A level wraps around at 64 bits. -/
def ofText? (text : Bytes) : Option LogLevel :=
  let isSign (b : UInt8) : Bool := b = byteOf '+' || b = byteOf '-'
  let name := text.takeWhile fun b => !isSign b
  match text.dropWhile fun b => !isSign b with
  | [] => ofName? name
  | distance => do
    let n ← ((Spelling.inBase 10).signed distance).toOption
    let level ← ofName? name
    return wrapped (level + n)

/-- The complaint about a text that names no level. -/
def invalid (text : Bytes) : Bytes := bytes "invalid log level " ++ Quoted.text text

end KustoFacts.LogLevel
