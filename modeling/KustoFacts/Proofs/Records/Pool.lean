import KustoFacts.Proofs.Records.Tally
import Mathlib.Algebra.GroupWithZero.Nat

/-!
    Runs with several workers, as steps of one state. A reader frames lines and hands each record to
    a worker as soon as one is free; a worker looks its query up, extracts it, puts the facts into
    the cache and sends them; a writer writes what was sent, in the order of arrival. What several of
    them touch is touched in a step of its own, and any order of steps is a run. When the context
    ends or the sink refuses, the reader stops, extractions may be called off, and facts that were
    not sent may be dropped.

    A worker left to itself does with a record what a run without workers does. Every step brings
    the run closer to its end, and as long as it has not returned there is a step to take. -/

namespace KustoFacts

/-- How far a worker is with its record. -/
inductive Task where
  /-- The record was handed to it. -/
  | given (r : Record)
  /-- The query is not in the cache and is to be extracted. -/
  | missed (q : Query)
  /-- The facts were extracted and are to be put into the cache. -/
  | extracted (q : Query) (facts : Facts)
  /-- The facts are to be sent. -/
  | ready (facts : Facts)

/-- Where the reader stands. -/
inductive Reader where
  /-- It is about to ask whether the context has ended. -/
  | asking
  /-- It is about to take a line. -/
  | reading
  /-- It has a record and waits for a free worker. -/
  | handing (r : Record)
  /-- It takes no more lines and waits for the workers to end. -/
  | waiting
  /-- Nothing more will be sent; it waits for the writer to end. -/
  | closed
  /-- The run has returned. -/
  | returned (error : Option RunError)

/-- What a run with workers is over: a source, a sink, the number of workers, and why the context
    ends at some time, if it does. -/
structure PoolRun where
  workers : Nat
  source : Source
  sink : Sink
  callOff : Option CallOff

/-- A run with workers in progress: the processor they share, the lines not read yet, the reader,
    the records that workers have, the facts that were sent, earliest first, those in the writer's
    hand, and those written; then whether the context has ended, and what went wrong: in reading, in
    writing, and in sending. -/
structure Pool (σ : Type) where
  processor : Processor σ
  lines : List Line
  reader : Reader
  tasks : List Task
  sent : List Facts
  writing : Option Facts
  written : List Facts
  ended : Option CallOff
  unread : Option RunError
  refused : Option RunError
  unsent : Option CallOff

namespace Processor

variable {σ : Type} [FactsCache σ]

/-- Looks a query up in the cache, if there is one. -/
def consult (p : Processor σ) (q : Query) : Option Facts × Processor σ :=
  match p.cache with
  | none => (none, p)
  | some cache =>
    match FactsCache.get cache (p.key q.text) with
    | (some facts, cache) =>
      let p := p.count fun s => { s with cacheHits := s.cacheHits + 1 }
      (some (facts.withId q.id), { p with cache := some cache })
    | (none, cache) => (none, { p with cache := some cache })

/-- Puts the facts of a query into the cache, if there is one. -/
def keep (p : Processor σ) (q : Query) (facts : Facts) : Processor σ :=
  { p with cache := p.cache.map (FactsCache.add · (p.key q.text) (facts.withId [])) }

end Processor

section Work

variable {σ : Type} [FactsCache σ]

/-- What a worker does next by itself: the processor after it, and what is left to do, which is
    nothing for a record that failed. With facts that are ready there is nothing to do but to send
    them. -/
def Task.work (p : Processor σ) : Task → Option (Processor σ × Option Task)
  | .given r =>
    match r.decode with
    | .error _ => some ((p.fail []).processor, none)
    | .ok q =>
      match p.consult q with
      | (some facts, p) => some (p, some (.ready facts))
      | (none, p) => some (p, some (.missed q))
  | .missed q =>
    let p := { p with extractions := p.extractions + 1 }
    match (extract p.options.extract q.id q.text).outcome with
    | .error _ => some ((p.fail []).processor, none)
    | .ok facts => some (p, some (.extracted q facts))
  | .extracted q facts => some (p.keep q facts, some (.ready facts))
  | .ready _ => none

/-- A worker goes on by itself. -/
inductive Task.Works : Processor σ × Option Task → Processor σ × Option Task → Prop where
  | work {p : Processor σ} {task : Task} {next : Processor σ × Option Task}
      (h : task.work p = some next) : Works (p, some task) next

/-- A worker left to itself does with a record what a run without workers does. -/
theorem Task.works_processRecord (p : Processor σ) (r : Record) :
    Relation.ReflTransGen Task.Works
      (p.count fun s => { s with records := s.records + 1 }, some (.given r))
      ((p.processRecord r).processor, (p.processRecord r).facts.map .ready) := by
  generalize hp : (p.count fun s => { s with records := s.records + 1 }) = counted
  have fresh (c : Processor σ) (q : Query) :
      Relation.ReflTransGen Task.Works (c, some (.missed q))
        ((c.extractFresh r q).processor, (c.extractFresh r q).facts.map .ready) := by
    cases hout : (extract c.options.extract q.id q.text).outcome with
    | error e =>
      simp only [Processor.extractFresh, hout]
      exact .single (.work (by simp only [Task.work, hout]; rfl))
    | ok facts =>
      simp only [Processor.extractFresh, hout]
      exact .tail (.single (.work (by simp only [Task.work, hout]; rfl))) (.work rfl)
  rw [Processor.processRecord, hp]
  cases hdecode : r.decode with
  | error e => exact .single (.work (by simp only [Task.work, hdecode]; rfl))
  | ok q =>
    simp only [Processor.lookUp]
    split
    next hcache =>
      refine .head (.work ?_) (fresh counted q)
      simp only [Task.work, hdecode, Processor.consult, hcache]
    next cache hcache =>
      split
      next facts after hget =>
        refine .single (.work ?_)
        simp only [Task.work, hdecode, Processor.consult, hcache, hget]
        rfl
      next after hget =>
        refine .head (.work ?_) (fresh _ q)
        simp only [Task.work, hdecode, Processor.consult, hcache, hget]

end Work

namespace Pool

variable {σ : Type} [FactsCache σ]

/-- A run with workers before its first step. -/
def start (run : PoolRun) (p : Processor σ) : Pool σ where
  processor := p
  lines := run.source.lines p.options.limit
  reader := .asking
  tasks := []
  sent := []
  writing := none
  written := []
  ended := none
  unread := none
  refused := none
  unsent := none

/-- What a run returns: a refusal, or else what went wrong in reading, or else that facts were not
    sent in time, or else why the context has ended. -/
def verdict (s : Pool σ) : Option RunError :=
  let late := if s.unsent = some .deadlineExceeded then some .deadlineExceeded else s.ended
  s.refused.or (s.unread.or (late.map .calledOff))

/-- The steps of a run with workers. -/
inductive Step (run : PoolRun) (s : Pool σ) : Pool σ → Prop where
  /-- The reader asks whether the context has ended. -/
  | ask (hreader : s.reader = .asking) :
      Step run s { s with reader := if s.ended.isNone then .reading else .waiting }
  /-- The reader takes a line that is no record. -/
  | skip (line : Line) (rest : List Line) (hreader : s.reader = .reading)
      (hlines : s.lines = line :: rest) (hrecord : line.record? = none) :
      Step run s
        { s with processor := (s.processor.skip []).processor, lines := rest, reader := .asking }
  /-- The reader takes a line with a record. -/
  | frame (line : Line) (rest : List Line) (r : Record) (hreader : s.reader = .reading)
      (hlines : s.lines = line :: rest) (hrecord : line.record? = some r) :
      Step run s
        { s with
          processor := s.processor.count fun c => { c with records := c.records + 1 }
          lines := rest
          reader := .handing r }
  /-- The reader finds the source at its end. -/
  | exhaust (hreader : s.reader = .reading) (hlines : s.lines = []) :
      Step run s { s with reader := .waiting, unread := Processor.endError run.source.ending }
  /-- The reader hands its record to a worker. -/
  | hand (r : Record) (hreader : s.reader = .handing r) (hfree : s.tasks.length < run.workers) :
      Step run s { s with reader := .asking, tasks := s.tasks ++ [.given r] }
  /-- A worker goes on by itself. -/
  | work (before : List Task) (task : Task) (after : List Task) (p : Processor σ)
      (next : Option Task) (htasks : s.tasks = before ++ task :: after)
      (hwork : task.work s.processor = some (p, next)) :
      Step run s { s with processor := p, tasks := before ++ next.toList ++ after }
  /-- A worker sends its facts and is free. -/
  | send (before : List Task) (facts : Facts) (after : List Task)
      (htasks : s.tasks = before ++ .ready facts :: after) (hroom : s.sent.length < run.workers) :
      Step run s { s with tasks := before ++ after, sent := s.sent ++ [facts] }
  /-- The writer takes facts in hand. -/
  | receive (facts : Facts) (rest : List Facts) (hwriting : s.writing = none)
      (hsent : s.sent = facts :: rest) :
      Step run s { s with sent := rest, writing := some facts }
  /-- The writer writes facts. -/
  | write (facts : Facts) (hwriting : s.writing = some facts) (hrefused : s.refused = none)
      (hsink : run.sink facts = none) :
      Step run s
        { s with
          processor := s.processor.count fun c => { c with emitted := c.emitted + 1 }
          writing := none
          written := s.written ++ [facts] }
  /-- The sink refuses facts, which ends the context. -/
  | refuse (facts : Facts) (why : Bytes) (hwriting : s.writing = some facts)
      (hrefused : s.refused = none) (hsink : run.sink facts = some why) :
      Step run s
        { s with
          writing := none
          ended := s.ended.or (some .canceled)
          refused := some (.writing facts.id why) }
  /-- After a refusal facts are dropped. -/
  | discard (facts : Facts) (hwriting : s.writing = some facts) (hrefused : s.refused.isSome) :
      Step run s { s with writing := none }
  /-- The context ends. -/
  | callOff (why : CallOff) (hcallOff : run.callOff = some why) (hended : s.ended = none) :
      Step run s { s with ended := some why }
  /-- An extraction is called off. -/
  | giveUp (before : List Task) (q : Query) (after : List Task)
      (htasks : s.tasks = before ++ .missed q :: after) (hended : s.ended.isSome) :
      Step run s
        { s with
          processor := (Processor.fail
            { s.processor with extractions := s.processor.extractions + 1 } []).processor
          tasks := before ++ after }
  /-- A worker drops its facts, since the context has ended. -/
  | drop (before : List Task) (facts : Facts) (after : List Task) (why : CallOff)
      (htasks : s.tasks = before ++ .ready facts :: after) (hended : s.ended = some why) :
      Step run s { s with tasks := before ++ after, unsent := s.unsent.or (some why) }
  /-- All workers have ended, and nothing more will be sent. -/
  | close (hreader : s.reader = .waiting) (htasks : s.tasks = []) :
      Step run s { s with reader := .closed }
  /-- The writer has ended, and the run returns. -/
  | finish (hreader : s.reader = .closed) (hsent : s.sent = []) (hwriting : s.writing = none) :
      Step run s { s with reader := .returned s.verdict }

end Pool

/-! ### Runs end -/

/-- A bound on the steps that a worker may still take, with those that its facts take after it. -/
def Task.left : Task → Nat
  | .given _ => 6
  | .missed _ => 5
  | .extracted _ _ => 4
  | .ready _ => 3

/-- A bound on the steps that the reader may still take, with those of the record it has. -/
def Reader.left : Reader → Nat
  | .asking => 4
  | .reading => 3
  | .handing _ => 11
  | .waiting => 2
  | .closed => 1
  | .returned _ => 0

/-- A bound on the steps that a run may still take. -/
def Pool.left {σ : Type} (s : Pool σ) : Nat :=
  9 * s.lines.length + s.reader.left + (s.tasks.map Task.left).sum + 2 * s.sent.length +
    s.writing.toList.length + if s.ended.isNone then 1 else 0

section Ends

variable {σ : Type} [FactsCache σ] {run : PoolRun} {s t : Pool σ}

theorem Task.left_work {p p' : Processor σ} {task : Task} {next : Option Task}
    (h : task.work p = some (p', next)) : (next.toList.map Task.left).sum < task.left := by
  cases task with
  | given r =>
    simp only [Task.work] at h
    split at h
    · cases h; simp [Task.left]
    · split at h <;> cases h <;> simp [Task.left]
  | missed q =>
    simp only [Task.work] at h
    split at h <;> cases h <;> simp [Task.left]
  | extracted q facts => cases h; simp [Task.left]
  | ready facts => cases h

namespace Pool

/-- Every step brings a run closer to its end. -/
theorem Step.left_lt (h : Step run s t) : t.left < s.left := by
  cases h with
  | ask hreader =>
    simp only [left, hreader]
    split <;> simp [Reader.left]
  | skip line rest hreader hlines hrecord => simp [left, hreader, hlines, Reader.left]; omega
  | frame line rest r hreader hlines hrecord => simp [left, hreader, hlines, Reader.left]; omega
  | exhaust hreader hlines => simp [left, hreader, hlines, Reader.left]
  | hand r hreader hfree => simp [left, hreader, Reader.left, Task.left]; omega
  | work before task after p next htasks hwork =>
    have hless := Task.left_work hwork
    simp only [left, htasks, List.map_append, List.map_cons, List.sum_append, List.sum_cons]
    omega
  | send before facts after htasks hroom => simp [left, htasks, Task.left]; omega
  | receive facts rest hwriting hsent => simp [left, hwriting, hsent]; omega
  | write facts hwriting hrefused hsink => simp [left, hwriting]
  | refuse facts why hwriting hrefused hsink =>
    simp [left, hwriting]
    omega
  | discard facts hwriting hrefused => simp [left, hwriting]
  | callOff why hcallOff hended => simp [left, hended]
  | giveUp before q after htasks hended => simp [left, htasks, Task.left]
  | drop before facts after why htasks hended => simp [left, htasks, Task.left]
  | close hreader htasks => simp [left, hreader, Reader.left]
  | finish hreader hsent hwriting => simp [left, hreader, Reader.left]

/-- The writer can go on as long as there are facts for it. -/
theorem exists_step_writer (run : PoolRun) (h : s.writing ≠ none ∨ s.sent ≠ []) :
    ∃ t, Step run s t := by
  cases hwriting : s.writing with
  | some facts =>
    by_cases hrefused : s.refused = none
    · cases hsink : run.sink facts with
      | none => exact ⟨_, .write facts hwriting hrefused hsink⟩
      | some why => exact ⟨_, .refuse facts why hwriting hrefused hsink⟩
    · exact ⟨_, .discard facts hwriting (Option.isSome_iff_ne_none.2 hrefused)⟩
  | none =>
    cases hsent : s.sent with
    | nil => simp [hwriting, hsent] at h
    | cons facts rest => exact ⟨_, .receive facts rest hwriting hsent⟩

/-- As long as a worker has a record, it or the writer can go on. -/
theorem exists_step_worker (hworkers : 0 < run.workers) (h : s.tasks ≠ []) : ∃ t, Step run s t := by
  obtain ⟨task, after, htasks⟩ := List.exists_cons_of_ne_nil h
  have htasks : s.tasks = [] ++ task :: after := htasks
  cases hwork : task.work s.processor with
  | some next => exact ⟨_, .work [] task after next.1 next.2 htasks hwork⟩
  | none =>
    cases task with
    | ready facts =>
      by_cases hroom : s.sent.length < run.workers
      · exact ⟨_, .send [] facts after htasks hroom⟩
      · refine exists_step_writer run (.inr ?_)
        rintro hsent
        rw [hsent] at hroom
        exact hroom hworkers
    | given r =>
      simp only [Task.work] at hwork
      split at hwork
      · cases hwork
      · split at hwork <;> cases hwork
    | missed q =>
      simp only [Task.work] at hwork
      split at hwork <;> cases hwork
    | extracted q facts => cases hwork

/-- A run that has not returned can go on. -/
theorem exists_step (hworkers : 0 < run.workers) (s : Pool σ)
    (h : ∀ error, s.reader ≠ .returned error) : ∃ t, Step run s t := by
  cases hreader : s.reader with
  | asking => exact ⟨_, .ask hreader⟩
  | reading =>
    cases hlines : s.lines with
    | nil => exact ⟨_, .exhaust hreader hlines⟩
    | cons line rest =>
      cases hrecord : line.record? with
      | none => exact ⟨_, .skip line rest hreader hlines hrecord⟩
      | some r => exact ⟨_, .frame line rest r hreader hlines hrecord⟩
  | handing r =>
    by_cases hfree : s.tasks.length < run.workers
    · exact ⟨_, .hand r hreader hfree⟩
    · refine exists_step_worker hworkers ?_
      intro htasks
      rw [htasks] at hfree
      exact hfree hworkers
  | waiting =>
    by_cases htasks : s.tasks = []
    · exact ⟨_, .close hreader htasks⟩
    · exact exists_step_worker hworkers htasks
  | closed =>
    by_cases hdone : s.writing = none ∧ s.sent = []
    · exact ⟨_, .finish hreader hdone.2 hdone.1⟩
    · refine exists_step_writer run ?_
      rwa [not_and_or] at hdone
  | returned error => exact absurd hreader (h error)

/-- Every run comes to its end, whatever steps it has taken. -/
theorem exists_returned (hworkers : 0 < run.workers) (s : Pool σ) :
    ∃ t error, Relation.ReflTransGen (Step run) s t ∧ t.reader = .returned error := by
  induction hleft : s.left using Nat.strong_induction_on generalizing s with
  | _ n ih =>
    by_cases hreturned : ∃ error, s.reader = .returned error
    · obtain ⟨error, herror⟩ := hreturned
      exact ⟨s, error, .refl, herror⟩
    · obtain ⟨next, hstep⟩ := exists_step hworkers s (not_exists.1 hreturned)
      obtain ⟨t, error, hrun, herror⟩ := ih next.left (hleft ▸ hstep.left_lt) next rfl
      exact ⟨t, error, .head hstep hrun, herror⟩

end Pool
end Ends
end KustoFacts
