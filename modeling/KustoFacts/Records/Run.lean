import KustoFacts.Facts.Extract
import KustoFacts.Records.Cache
import KustoFacts.Records.Digest
import KustoFacts.Records.Line
import KustoFacts.Records.Record

/-!
    Runs over a source of records. Each line is framed, decoded and extracted, and the facts are
    handed to a sink, in the order of the lines; a line that fails is counted, recorded and passed
    over. Only a source that fails, a sink that refuses or a run that is called off ends a run early.
    Counters and cache last over runs. -/

namespace KustoFacts

/-- What happened to the lines so far. -/
structure Stats where
  records : Nat
  skipped : Nat
  emitted : Nat
  failed : Nat
  cacheHits : Nat
  deriving DecidableEq, Repr

/-- How records are processed. -/
structure ProcessorOptions where
  extract : ExtractOptions
  maxLineSize : Int
  deriving DecidableEq

/-- The longest line accepted unless a limit is given: 16 MiB. -/
def defaultMaxLineSize : Int := 16 * 1024 * 1024

/-- The limit in force: one that is not positive stands for the usual one. -/
def ProcessorOptions.limit (o : ProcessorOptions) : Int :=
  if o.maxLineSize ≤ 0 then defaultMaxLineSize else o.maxLineSize

/-- A processor between lines: its options, the key it gives a text, its cache if it has one, its
    counters, and the number of extractions it has made. -/
structure Processor (σ : Type := Cache) where
  options : ProcessorOptions
  key : Bytes → UInt64
  cache : Option σ
  stats : Stats
  extractions : Nat

/-- A cache cannot have a negative size. -/
structure NegativeCacheSize where
  size : Int
  deriving DecidableEq, Repr

/-- The wording of the error. -/
def NegativeCacheSize.message (e : NegativeCacheSize) : Bytes :=
  bytes "cache size must not be negative, got " ++ decimalInt e.size

/-- A processor that has done nothing yet, over a cache and keys of one's choice. A cache of size 0
    is none. -/
def Processor.withCache (σ : Type) [FactsCache σ] (key : Bytes → UInt64) (options : ProcessorOptions)
    (cacheSize : Int) : Except NegativeCacheSize (Processor σ) :=
  if cacheSize < 0 then .error ⟨cacheSize⟩
  else
    let cache := if cacheSize = 0 then none else some (FactsCache.empty cacheSize.toNat)
    .ok ⟨options, key, cache, ⟨0, 0, 0, 0, 0⟩, 0⟩

/-- A processor that has done nothing yet. -/
def Processor.new (options : ProcessorOptions) (cacheSize : Int) :
    Except NegativeCacheSize Processor :=
  Processor.withCache Cache digest options cacheSize

/-- A record in the log of a run; `own` tells those of the run from those of an extraction. -/
structure RunRecord where
  own : Bool
  record : LogRecord
  deriving DecidableEq, Repr

/-- Why a run ended early. -/
inductive RunError where
  | calledOff (why : CallOff)
  | reading (why : Bytes)
  | writing (id why : Bytes)
  deriving DecidableEq, Repr

/-- The wording of an error. -/
def RunError.message : RunError → Bytes
  | .calledOff why => why.message
  | .reading why => bytes "reading input: " ++ why
  | .writing id why => bytes "writing result " ++ Quoted.text id ++ bytes ": " ++ why

/-- What a run did: the facts written, each with the counters as they stood then, the log, and why
    it ended early if it did. -/
structure RunReport where
  written : List (Facts × Stats)
  log : List RunRecord
  error : Option RunError

/-- A place for facts: `none` when it takes them, or why it refuses. -/
abbrev Sink := Facts → Option Bytes

/-- What may call a run off: asked with the number of lines taken so far, before the next is. -/
structure Context where
  calledOff : Nat → Option CallOff

/-- A run that was called off before it began, or one that is not called off. -/
instance : Coe (Option CallOff) Context := ⟨fun why => ⟨fun _ => why⟩⟩

/-! ### One line -/

/-- What processing a line yields: facts, unless it was skipped or failed. -/
structure LineOutcome (σ : Type) where
  processor : Processor σ
  log : List RunRecord
  facts : Option Facts

namespace Processor

variable {σ : Type} [FactsCache σ]

/-- A change of the counters. -/
def count (p : Processor σ) (change : Stats → Stats) : Processor σ :=
  { p with stats := change p.stats }

/-- A line that is not even a record. -/
def skip (p : Processor σ) (log : List RunRecord) : LineOutcome σ :=
  ⟨p.count fun s => { s with skipped := s.skipped + 1 }, log, none⟩

/-- A record that has no facts. -/
def fail (p : Processor σ) (log : List RunRecord) : LineOutcome σ :=
  ⟨p.count fun s => { s with failed := s.failed + 1 }, log, none⟩

/-- The record of a failure that is not the text's fault. -/
def failureRecord (r : Record) (message : Bytes) : RunRecord :=
  ⟨true, .error "extraction failed" [("id", .text r.id), ("line", .int r.line),
    ("err", .text message)]⟩

/-- The records of an extraction that yielded no facts. -/
def errorRecords (r : Record) : ExtractError → List RunRecord
  | .invalid _ diagnostics =>
    diagnostics.map fun d =>
      ⟨true, .error "syntax error" [("id", .text r.id), ("line", .int r.line),
        ("err", .text d.render)]⟩
  | .failed id cause => [failureRecord r (ExtractError.failed id cause).message]

/-- Extracts a query that the cache does not hold. -/
def extractFresh (p : Processor σ) (r : Record) (q : Query) : LineOutcome σ :=
  let extraction := extract p.options.extract q.id q.text
  let p := { p with extractions := p.extractions + 1 }
  let log := extraction.trace.map (⟨false, ·⟩)
  match extraction.outcome with
  | .error e => p.fail (log ++ errorRecords r e)
  | .ok facts =>
    let cache := p.cache.map (FactsCache.add · (p.key q.text) (facts.withId []))
    ⟨{ p with cache := cache }, log, some facts⟩

/-- The facts of a query, from the cache if it holds them. -/
def lookUp (p : Processor σ) (r : Record) (q : Query) : LineOutcome σ :=
  match p.cache with
  | none => p.extractFresh r q
  | some cache =>
    match FactsCache.get cache (p.key q.text) with
    | (some facts, cache) =>
      let p := p.count fun s => { s with cacheHits := s.cacheHits + 1 }
      ⟨{ p with cache := some cache }, [], some (facts.withId q.id)⟩
    | (none, cache) => extractFresh { p with cache := some cache } r q

/-- Processes a record. -/
def processRecord (p : Processor σ) (r : Record) : LineOutcome σ :=
  let p := p.count fun s => { s with records := s.records + 1 }
  match r.decode with
  | .error e => p.fail [failureRecord r e.message]
  | .ok q => p.lookUp r q

/-- Processes a line. -/
def processLine (p : Processor σ) (line : Line) : LineOutcome σ :=
  match line.text with
  | none =>
    p.skip [⟨true, .error "line too long" [("line", .int line.number),
      ("limit", .int p.options.limit)]⟩]
  | some text =>
    match Record.ofLine? line.number text with
    | none => p.skip []
    | some r => p.processRecord r

/-! ### All lines -/

/-- A run in progress; what was written and recorded is kept latest first. -/
structure Progress (σ : Type) where
  processor : Processor σ
  written : List (Facts × Stats)
  log : List RunRecord

/-- Processes lines until the run is called off or the sink refuses, and says which of the two it
    was, if any; `taken` is the number of lines taken already. -/
def runLines (context : Context) (sink : Sink) (taken : Nat) (progress : Progress σ) :
    List Line → Progress σ × Option RunError
  | [] => (progress, (context.calledOff taken).map .calledOff)
  | line :: rest =>
    match context.calledOff taken with
    | some why => (progress, some (.calledOff why))
    | none =>
      let outcome := progress.processor.processLine line
      let log := outcome.log.reverse ++ progress.log
      match outcome.facts with
      | none =>
        runLines context sink (taken + 1)
          { progress with processor := outcome.processor, log := log } rest
      | some facts =>
        match sink facts with
        | some why => (⟨outcome.processor, progress.written, log⟩, some (.writing facts.id why))
        | none =>
          let p := outcome.processor.count fun s => { s with emitted := s.emitted + 1 }
          runLines context sink (taken + 1)
            ⟨p, (facts, outcome.processor.stats) :: progress.written, log⟩ rest

/-- How a source's end ends a run. -/
def endError : SourceEnd → Option RunError
  | .complete => none
  | .failure why => some (.reading why)

/-- Runs over a source. -/
def run (p : Processor σ) (context : Context) (source : Source) (sink : Sink) :
    RunReport × Processor σ :=
  let (progress, ended) := runLines context sink 0 ⟨p, [], []⟩ (source.lines p.options.limit)
  (⟨progress.written.reverse, progress.log.reverse, ended.or (endError source.ending)⟩,
    progress.processor)

end Processor
end KustoFacts
