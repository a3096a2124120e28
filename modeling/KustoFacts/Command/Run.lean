import KustoFacts.Catalog
import KustoFacts.Command.Help
import KustoFacts.Command.Session
import KustoFacts.Output.Yaml
import KustoFacts.Records.Run

/-!
    Runs of the command. With a file among the arguments the query in it is extracted once; without
    one, records are read from the input or from a file that the settings name. The log and
    errors go to one text, results and the faults of a query to another. A timeout bounds an
    extraction in time, and here an extraction takes none. -/

namespace KustoFacts.Command

/-- How a run ends. -/
inductive Exit where
  | success
  | invalidQuery
  | failure
  deriving DecidableEq, Repr

/-- The code of an end. -/
def Exit.code : Exit → Nat
  | success => 0
  | invalidQuery => 1
  | failure => 2

/-- What a run leaves. -/
structure Outcome where
  exit : Exit
  stdout : Bytes
  stderr : Bytes
  deriving DecidableEq, Repr

namespace Outcome

/-- An error of a run that has left something already. -/
def failed (exit : Exit) (stdout log message : Bytes) : Outcome :=
  ⟨exit, stdout, log ++ bytes "Error: " ++ message ++ [lineFeed]⟩

/-- An error before anything was done. -/
def refused (message : Bytes) : Outcome := failed .failure [] [] message

end Outcome

/-! ### One query -/

/-- The outcome of an extraction, after a log. -/
def ofExtraction (plan : Plan) (log : List LogRecord) (e : Extraction) : Outcome :=
  let log := plan.logger.text (log ++ e.trace)
  match e.outcome with
  | .ok facts => ⟨.success, (OutputWriter.new plan.format).textOf facts.document, log⟩
  | .error (.invalid id diagnostics) =>
    .failed .invalidQuery (diagnostics.flatMap fun d => d.render ++ [lineFeed]) log
      (ExtractError.invalid id diagnostics).message
  | .error (.failed id cause) => .failed .failure [] log (ExtractError.failed id cause).message

/-- Extracts the query in a file. Without an id for it, one is asked for. -/
def runFile (plan : Plan) (options : ExtractOptions) (log : List LogRecord) (id path : Bytes) :
    Session Outcome := do
  match ← Session.contentsOf path with
  | .error why =>
    return .failed .failure [] (plan.logger.text log) (bytes "reading file: " ++ why.message path)
  | .ok text =>
    let id ← if id = [] then Session.newId else pure id
    return ofExtraction plan log (extract options id text)

/-! ### Records -/

/-- The record of the counters at the end of a run. -/
def finishedRecord (s : Stats) : LogRecord :=
  .info "stream finished"
    [("records", .int s.records), ("skipped", .int s.skipped), ("emitted", .int s.emitted),
      ("failed", .int s.failed), ("cache_hits", .int s.cacheHits)]

/-- The outcome of a run over records, after a log. -/
def ofReport (plan : Plan) (log : List LogRecord) (report : RunReport) (p : Processor) : Outcome :=
  let (stdout, writer) :=
    (OutputWriter.new plan.format).textOfAll (report.written.map fun (facts, _) => facts.document)
  let log := plan.logger.text (log ++ report.log.map (·.record) ++ [finishedRecord p.stats])
  match report.error with
  | some e => .failed .failure stdout log e.message
  | none =>
    match writer.close with
    | .error e => .failed .failure stdout log e.message
    | .ok () => ⟨.success, stdout, log⟩

/-- Processes the records of a source. -/
def runSource (plan : Plan) (options : ExtractOptions) (log : List LogRecord) (source : Source) :
    Outcome :=
  match Processor.new ⟨options, 0⟩ plan.settings.cacheSize with
  | .error e => .failed .failure [] (plan.logger.text log) e.message
  | .ok p =>
    let (report, p) := p.run (none : Option CallOff) source fun _ => none
    ofReport plan log report p

/-- Processes the records of the file that the settings name, or of the input. A directory can be
    opened, but not read. -/
def runRecords (plan : Plan) (options : ExtractOptions) (log : List LogRecord) :
    Session Outcome := do
  let path := plan.settings.input
  if path = [] then return runSource plan options log (← Session.input)
  match ← Session.contentsOf path with
  | .ok text => return runSource plan options log (.ofText 0 text .complete)
  | .error .directory =>
    return runSource plan options log (.ofText 0 [] (.failure (FileFault.directory.message path)))
  | .error why =>
    return .failed .failure [] (plan.logger.text log) (bytes "opening input: " ++ why.message path)

/-! ### The command -/

/-- The first file of settings that is there, of those that are looked for. -/
def firstPresent : List Bytes → Session (Option SettingsFile)
  | [] => .done none
  | name :: rest =>
    .readFile name fun contents =>
      match contents with
      | .error .missing => firstPresent rest
      | contents => .done (some ⟨name, contents⟩)

/-- The file of settings: the one that is named, or the first that is there. -/
def findSettings (named : Bytes) : Session (Option SettingsFile) :=
  if named = [] then firstPresent defaultSettingsFiles
  else .readFile named fun contents => .done (some ⟨named, contents⟩)

/-- The catalog that the settings name; without a name it is empty. -/
def findCatalog (path : Bytes) : Session (Except CatalogError Catalog) :=
  if path = [] then .done (.ok .empty)
  else .readFile path fun contents => .done (Catalog.ofFile path contents)

/-- Runs a plan on the arguments that are no flags. -/
def runPlan (plan : Plan) (file : Option SettingsFile) (id : Bytes) (others : List Bytes) :
    Session Outcome := do
  let log : List LogRecord :=
    match file with
    | some f => [.debug "loaded config" [("file", .text f.name)]]
    | none => []
  match ← findCatalog plan.settings.catalog with
  | .error e => return .failed .failure [] (plan.logger.text log) e.message
  | .ok catalog =>
    let log := log ++ [.debug "loaded catalog" [("tables", .int catalog.tables.length)]]
    let options : ExtractOptions := ⟨catalog.tableNames, plan.settings.normalizeJoinKinds⟩
    match others with
    | [path] => runFile plan options log id path
    | _ => runRecords plan options log

/-- Runs the command with given arguments and the variables of its environment. -/
def run (arguments : List Bytes) (environment : List (Bytes × Bytes)) : Session Outcome :=
  match Arguments.readAll flags .empty arguments with
  | .error e => .done (.refused e.message)
  | .ok a =>
    if a.isSet "help" then .done ⟨.success, help, []⟩
    else if a.isSet "version" then .done ⟨.success, versionLine, []⟩
    else if 1 < a.others.length then
      .done (.refused (bytes "accepts at most 1 arg(s), received " ++ decimal a.others.length))
    else do
      let file ← findSettings (a.text "config")
      match Plan.load file environment a.given with
      | .error e => return .refused e.message
      | .ok plan => runPlan plan file (a.text "id") a.others

end KustoFacts.Command
