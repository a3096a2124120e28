import KustoFacts.Facts.Document
import KustoFacts.Text.Quoted

/-!
    Writing facts: one line of JSON for each query, or one YAML document, with a line of dashes
    between two documents. How a YAML document is written is left open. -/

namespace KustoFacts

/-- The formats facts are written in. -/
inductive OutputFormat where
  | json
  | yaml
  deriving DecidableEq, Repr

namespace OutputFormat

/-- All formats. -/
def all : List OutputFormat := [json, yaml]

/-- The name of a format. -/
def name : OutputFormat → Bytes
  | json => bytes "json"
  | yaml => bytes "yaml"

/-- The format of a name. -/
def ofName? (text : Bytes) : Option OutputFormat := all.find? (·.name = text)

/-- The names of all formats, for messages. -/
def names : Bytes := Bytes.joinWith (bytes ", ") (all.map name)

/-- The complaint about a name that no format has. -/
def unknown (text : Bytes) : Bytes := bytes "unknown output format " ++ Quoted.text text

end OutputFormat

/-- Facts as a line of JSON. -/
def FactsDocument.jsonLine (d : FactsDocument) : Bytes := d.json.render .result ++ [lineFeed]

/-- Why a document could not be written: what its destination says. -/
structure WriteError where
  format : OutputFormat
  why : Bytes
  deriving DecidableEq, Repr

/-- The wording of the error. -/
def WriteError.message (e : WriteError) : Bytes :=
  match e.format with
  | .json => bytes "encoding JSON: " ++ e.why
  | .yaml => bytes "encoding YAML: yaml: write error: " ++ e.why

/-- A stream of YAML documents cannot end before it has begun. -/
inductive CloseError where
  | nothingWritten
  deriving DecidableEq, Repr

/-- The wording of the error. -/
def CloseError.message : CloseError → Bytes
  | .nothingWritten => bytes "yaml: expected STREAM-START"

/-- A writer: the text of a YAML document, the format, and whether it has written anything. -/
structure OutputWriter where
  yaml : FactsDocument → Bytes
  format : OutputFormat
  begun : Bool

namespace OutputWriter

/-- A writer that has written nothing, over YAML documents of one's choice. -/
def withYaml (yaml : FactsDocument → Bytes) (format : OutputFormat) : OutputWriter :=
  ⟨yaml, format, false⟩

/-- The text that the next document adds. -/
def textOf (w : OutputWriter) (d : FactsDocument) : Bytes :=
  match w.format with
  | .json => d.jsonLine
  | .yaml => (if w.begun then bytes "---\n" else []) ++ w.yaml d

/-- Writes a document to a destination, which takes it or says why not. -/
def write (w : OutputWriter) (refusal : Option Bytes) (d : FactsDocument) :
    Except WriteError (Bytes × OutputWriter) :=
  match refusal with
  | some why => .error ⟨w.format, why⟩
  | none => .ok (w.textOf d, { w with begun := true })

/-- Ends the output. -/
def close (w : OutputWriter) : Except CloseError Unit :=
  if w.format = .yaml && !w.begun then .error .nothingWritten else .ok ()

/-- The text of several documents, and the writer after them. -/
def textOfAll (w : OutputWriter) : List FactsDocument → Bytes × OutputWriter
  | [] => ([], w)
  | d :: rest =>
    let (text, w') := textOfAll { w with begun := true } rest
    (w.textOf d ++ text, w')

end OutputWriter
end KustoFacts
