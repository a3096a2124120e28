import KustoFacts.Text.Base64
import KustoFacts.Text.Blank
import KustoFacts.Text.Quoted

/-!
    Records: an id and a query text in base64, with a comma between them. -/

namespace KustoFacts

/-- A record as it stands on its line. -/
structure Record where
  line : Int
  id : Bytes
  payload : Bytes
  deriving DecidableEq, Repr

/-- A query to be read. -/
structure Query where
  id : Bytes
  text : Bytes
  deriving DecidableEq, Repr

/-- Why a payload holds no query. -/
inductive PayloadFault where
  | illegalBase64 (offset : Nat)
  | notUtf8
  deriving DecidableEq, Repr

/-- The wording of a payload's fault. -/
def PayloadFault.message : PayloadFault → Bytes
  | .illegalBase64 offset => bytes "illegal base64 data at input byte " ++ decimal offset
  | .notUtf8 => bytes "payload is not valid UTF-8"

/-- A record that holds no query. -/
structure DecodeError where
  line : Int
  id : Bytes
  fault : PayloadFault
  deriving DecidableEq, Repr

/-- The wording of the error. -/
def DecodeError.message (e : DecodeError) : Bytes :=
  bytes "line " ++ decimalInt e.line ++ bytes ": cannot decode query " ++ Quoted.text e.id ++
    bytes ": " ++ e.fault.message

namespace Record

/-- The record on a line: the line has exactly one comma, and a carriage return at its end does not
    count. -/
def ofLine? (number : Int) (line : Bytes) : Option Record :=
  match Bytes.splitOn (byteOf ',') (Bytes.withoutEnding line [carriageReturn]) with
  | [id, payload] => some ⟨number, id, payload⟩
  | _ => none

/-- The text a payload stands for; white space around it does not count. -/
def payloadText (payload : Bytes) : Except PayloadFault Bytes :=
  match Base64.decode (trimBlanks payload) with
  | .error offset => .error (.illegalBase64 offset)
  | .ok text => if Utf8.isValid text then .ok text else .error .notUtf8

/-- The query of a record. -/
def decode (r : Record) : Except DecodeError Query :=
  match payloadText r.payload with
  | .ok text => .ok ⟨r.id, text⟩
  | .error fault => .error ⟨r.line, r.id, fault⟩

end Record
end KustoFacts
