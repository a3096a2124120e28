import KustoFacts.Facts.Survey
import KustoFacts.Log.Record
import KustoFacts.Query.Parsed

/-!
    From a query text to its facts. An extraction parses the text and surveys the tree; it yields
    facts, or the faults of the text, or the reason why neither could be had. The states it passes
    through are recorded as it goes. -/

namespace KustoFacts

/-- The steps of an extraction. -/
inductive ExtractState where
  | parsing
  | syntaxError
  | walking
  | done
  | runtimeError
  deriving DecidableEq, Repr

namespace ExtractState

/-- The name of a state. -/
def name : ExtractState → Bytes
  | parsing => bytes "parsing"
  | syntaxError => bytes "syntax_error"
  | walking => bytes "walking"
  | done => bytes "done"
  | runtimeError => bytes "runtime_error"

/-- The name of the state with a given code. -/
def nameOfCode (code : Int) : Bytes :=
  let known : Option ExtractState :=
    if code < 0 then none
    else [parsing, syntaxError, walking, done, runtimeError][code.toNat]?
  (known.map name).getD (bytes "unknown")

end ExtractState

/-- Why an extraction was called off before it began. -/
inductive CallOff where
  | canceled
  | deadlineExceeded
  deriving DecidableEq, Repr

/-- The wording of a call-off. -/
def CallOff.message : CallOff → Bytes
  | .canceled => bytes "context canceled"
  | .deadlineExceeded => bytes "context deadline exceeded"

/-- Why an extraction failed although nothing is wrong with the text's grammar. -/
inductive ExtractCause where
  | calledOff (why : CallOff)
  | overrun (o : Overrun)
  | survey (e : SurveyError)
  deriving DecidableEq, Repr

/-- The wording of a cause. -/
def ExtractCause.message : ExtractCause → Bytes
  | .calledOff why => why.message
  | .overrun o => bytes "panic during extraction: " ++ o.message
  | .survey e => e.message

/-- Why a query has no facts. -/
inductive ExtractError where
  | invalid (id : Bytes) (diagnostics : List Diagnostic)
  | failed (id : Bytes) (cause : ExtractCause)
  deriving DecidableEq, Repr

/-- The wording of an error. -/
def ExtractError.message : ExtractError → Bytes
  | .invalid id diagnostics =>
    bytes "syntax error in query " ++ Quoted.text id ++ bytes ": " ++
      Bytes.joinWith (bytes "; ") (diagnostics.map Diagnostic.render)
  | .failed id cause =>
    bytes "extraction failed for query " ++ Quoted.text id ++ bytes ": " ++ cause.message

/-- How queries are read. -/
structure ExtractOptions where
  catalog : TableNames
  normalize : Bool
  deriving DecidableEq

/-- What an extraction yields, and the records it leaves. -/
structure Extraction where
  outcome : Except ExtractError Facts
  trace : List LogRecord

/-- The record of a state. -/
def stateRecord (id : Bytes) (state : ExtractState) (more : List (String × LogValue)) : LogRecord :=
  .debug "extraction state" ([("id", .text id), ("state", .text state.name)] ++ more)

/-- The records of join kinds outside of the vocabulary, which are looked for only when kinds are
    normalized. -/
def kindRecords (normalize : Bool) (root : Node) : List LogRecord :=
  if normalize then
    (strangeKinds root).map fun kind => .debug "unknown join kind" [("kind", .text kind)]
  else []

/-- The facts of a parsed query. -/
def Parsed.extract (p : Parsed) (normalize : Bool) (id : Bytes) : Extraction :=
  let parsing := stateRecord id .parsing []
  match p.diagnostics with
  | [] =>
    let walking := parsing :: stateRecord id .walking [] :: kindRecords normalize p.root
    match survey normalize id p.root with
    | .ok facts => ⟨.ok facts, walking ++ [stateRecord id .done []]⟩
    | .error e =>
      ⟨.error (.failed id (.survey e)),
        walking ++ [stateRecord id .runtimeError [("err", .text e.message)]]⟩
  | ds =>
    ⟨.error (.invalid id ds),
      [parsing, stateRecord id .syntaxError [("diagnostics", .int ds.length)]]⟩

/-- The facts of a query text. -/
def extract (options : ExtractOptions) (id text : Bytes) : Extraction :=
  match parse options.catalog text with
  | .ok p => p.extract options.normalize id
  | .error o =>
    let error := ExtractError.failed id (.overrun o)
    ⟨.error error,
      [stateRecord id .parsing [], stateRecord id .runtimeError [("err", .text error.message)]]⟩

/-- The facts of a query text, unless the work has been called off. -/
def extractUnless (calledOff : Option CallOff) (options : ExtractOptions) (id text : Bytes) :
    Extraction :=
  match calledOff with
  | some why => ⟨.error (.failed id (.calledOff why)), []⟩
  | none => extract options id text

end KustoFacts
