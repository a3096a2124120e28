import KustoFacts.Proofs.Facts.Outcome
import KustoFacts.Proofs.Records.Cache
import KustoFacts.Records.Run
import Mathlib.Data.Option.Basic
import Mathlib.Data.Set.Operations

/-!
    Runs with a cache and without one. Every entry of the cache holds the facts, under no id, of the
    one text with its key; a hit therefore yields what an extraction would have yielded. Line by line
    and run by run, the processor with a cache stays beside the one without, and nothing but the
    number of hits and the records for following an extraction tells them apart. -/

namespace KustoFacts

/-- A run to be made. -/
structure Job where
  context : Context
  source : Source
  sink : Sink

/-- The query on a line, if it holds one. -/
def Line.query? (line : Line) : Option Query :=
  line.text.bind fun text => (Record.ofLine? line.number text).bind (·.decode.toOption)

/-- The query texts in the lines of a job. -/
def Job.texts (limit : Int) (job : Job) : List Bytes :=
  (job.source.lines limit).filterMap fun line => line.query?.map (·.text)

/-- A run over a whole text, which nothing ends early. -/
def Job.ofText (text : Bytes) : Job := ⟨⟨fun _ => none⟩, .ofText 0 text .complete, fun _ => none⟩

/-- The query texts that occur in jobs. -/
def Job.occurring (limit : Int) (jobs : List Job) : List Bytes := jobs.flatMap (Job.texts limit)

/-- A key that tells texts apart is injective on them. -/
theorem injOn_texts {key : Bytes → UInt64} {texts known : List Bytes} (htexts : texts = known)
    (hknown : ∀ a ∈ known, ∀ b ∈ known, key a = key b → a = b) :
    Set.InjOn key {text | text ∈ texts} := by
  subst htexts
  intro a ha b hb
  exact hknown a ha b hb

/-- The counters other than that of hits. -/
def Stats.withoutHits (s : Stats) : Stats := { s with cacheHits := 0 }

/-- The records of failures. -/
def errorsOf (log : List RunRecord) : List RunRecord :=
  log.filter (·.record.level = LogLevel.error)

namespace Processor

variable {σ : Type} [FactsCache σ]

/-- Runs made one after another: what each did, and the processor after it. -/
def runAll (p : Processor σ) : List Job → List (RunReport × Processor σ)
  | [] => []
  | job :: rest =>
    let done := p.run job.context job.source job.sink
    done :: runAll done.2 rest

/-- Two runs with the same results, of which the first may have looked some of them up. -/
structure Alike (a b : RunReport × Processor σ) : Prop where
  written : a.1.written.map (Prod.map id Stats.withoutHits) =
    b.1.written.map (Prod.map id Stats.withoutHits)
  errors : errorsOf a.1.log = errorsOf b.1.log
  error : a.1.error = b.1.error
  stats : a.2.stats.withoutHits = b.2.stats.withoutHits
  extractions : a.2.extractions + a.2.stats.cacheHits = b.2.extractions

/-! ### The invariant -/

/-- Texts that no two of have the same key, and how they are read. -/
structure Keyed where
  options : ProcessorOptions
  key : Bytes → UInt64
  texts : List Bytes
  distinct : ∀ a ∈ texts, ∀ b ∈ texts, key a = key b → a = b

/-- Whatever was put into a cache are the facts, under no id, of the text with the key. -/
def Keyed.Holds (k : Keyed) (cache : σ) : Prop :=
  ∃ capacity history, cache = FactsCache.after σ capacity history ∧
    ∀ key facts, .add key facts ∈ history →
      ∃ text ∈ k.texts, k.key text = key ∧ (extract k.options.extract [] text).outcome = .ok facts

/-- A processor beside one without a cache. -/
structure Beside (k : Keyed) (p q : Processor σ) : Prop where
  options : p.options = k.options
  options' : q.options = k.options
  key : p.key = k.key
  holds : ∀ cache, p.cache = some cache → k.Holds cache
  plain : q.cache = none
  stats : p.stats.withoutHits = q.stats.withoutHits
  extractions : p.extractions + p.stats.cacheHits = q.extractions

variable {k : Keyed} {cache : σ} {p q : Processor σ} {text : Bytes} {facts : Facts}

theorem Keyed.holds_empty (k : Keyed) (capacity : Nat) :
    k.Holds (FactsCache.empty capacity : σ) := by
  refine ⟨capacity, [], rfl, ?_⟩
  intro key facts hmem
  cases hmem

theorem Keyed.Holds.get (h : k.Holds cache) (key : UInt64) :
    k.Holds (FactsCache.get cache key).2 := by
  obtain ⟨capacity, history, rfl, hadded⟩ := h
  refine ⟨capacity, .get key :: history, rfl, ?_⟩
  intro key' facts hmem
  exact hadded key' facts (by simpa using hmem)

theorem Keyed.Holds.add (h : k.Holds cache) (htext : text ∈ k.texts)
    (hfacts : (extract k.options.extract [] text).outcome = .ok facts) :
    k.Holds (FactsCache.add cache (k.key text) facts) := by
  obtain ⟨capacity, history, rfl, hadded⟩ := h
  refine ⟨capacity, .add (k.key text) facts :: history, rfl, ?_⟩
  intro key facts' hmem
  rcases List.mem_cons.1 hmem with heq | hmem
  · cases heq
    exact ⟨text, htext, rfl, hfacts⟩
  · exact hadded key facts' hmem

/-- A hit yields the facts of the text that was looked up. -/
theorem Keyed.Holds.hit (h : k.Holds cache) (hlast : FactsCache.ReturnsLast σ)
    (htext : text ∈ k.texts) (hhit : (FactsCache.get cache (k.key text)).1 = some facts) :
    (extract k.options.extract [] text).outcome = .ok facts := by
  obtain ⟨capacity, history, rfl, hadded⟩ := h
  have hmem := mem_of_lastAdded (hlast capacity history _ _ hhit)
  obtain ⟨text', htext', heq, hfacts⟩ := hadded _ _ hmem
  rwa [k.distinct text' htext' text htext heq] at hfacts

/-- Processors beside each other count alike whatever is not a hit. -/
theorem Beside.count (h : Beside k p q) {change : Stats → Stats}
    (hchange : ∀ s, (change s).withoutHits = change s.withoutHits)
    (hhits : ∀ s, (change s).cacheHits = s.cacheHits) :
    Beside k (p.count change) (q.count change) := by
  refine ⟨h.options, h.options', h.key, h.holds, h.plain, ?_, ?_⟩
  · simp only [Processor.count]
    rw [hchange, hchange, h.stats]
  · simp only [Processor.count, hhits]
    exact h.extractions

/-! ### One line -/

/-- Outcomes of a line with a cache and without one. -/
structure OutcomesBeside (k : Keyed) (a b : LineOutcome σ) :
    Prop where
  processor : Beside k a.processor b.processor
  errors : errorsOf a.log = errorsOf b.log
  facts : a.facts = b.facts

theorem Beside.skip (h : Beside k p q) (log : List RunRecord) :
    OutcomesBeside k (p.skip log) (q.skip log) := by
  refine ⟨?_, rfl, rfl⟩
  simp only [Processor.skip]
  refine h.count ?_ ?_ <;> exact fun _ => rfl

theorem Beside.fail (h : Beside k p q) (log : List RunRecord) :
    OutcomesBeside k (p.fail log) (q.fail log) := by
  refine ⟨?_, rfl, rfl⟩
  simp only [Processor.fail]
  refine h.count ?_ ?_ <;> exact fun _ => rfl

/-- An extraction leaves no records of failures of its own. -/
theorem errorsOf_trace (options : ExtractOptions) (id text : Bytes) :
    errorsOf ((extract options id text).trace.map (⟨false, ·⟩)) = [] := by
  refine List.filter_eq_nil_iff.2 ?_
  intro record hrecord
  obtain ⟨traced, htraced, rfl⟩ := List.mem_map.1 hrecord
  simp [level_trace options id text traced htraced, LogLevel.debug, LogLevel.error]

/-- Both processors extract the text. -/
theorem Beside.extractFresh (h : Beside k p q) (r : Record) {query : Query}
    (htext : query.text ∈ k.texts) :
    OutcomesBeside k (p.extractFresh r query) (q.extractFresh r query) := by
  have hmore : Beside k { p with extractions := p.extractions + 1 }
      { q with extractions := q.extractions + 1 } := by
    refine ⟨h.options, h.options', h.key, h.holds, h.plain, h.stats, ?_⟩
    have := h.extractions
    dsimp only
    omega
  have hours : extract p.options.extract query.id query.text =
      extract k.options.extract query.id query.text := by rw [h.options]
  have htheirs : extract q.options.extract query.id query.text =
      extract k.options.extract query.id query.text := by rw [h.options']
  cases hout : (extract k.options.extract query.id query.text).outcome with
  | error e =>
    simp only [Processor.extractFresh, hours, htheirs, hout]
    exact hmore.fail _
  | ok facts =>
    simp only [Processor.extractFresh, hours, htheirs, hout]
    refine ⟨⟨h.options, h.options', h.key, ?_, ?_, h.stats, hmore.extractions⟩, rfl, rfl⟩
    · intro cache hcache
      obtain ⟨before, hbefore, rfl⟩ := Option.map_eq_some_iff.1 hcache
      rw [h.key]
      exact (h.holds before hbefore).add htext (outcome_withId hout [])
    · simp [h.plain]

/-- The processor with a cache looks up what the other extracts. -/
theorem Beside.hit (h : Beside k p q) (hlast : FactsCache.ReturnsLast σ) (r : Record) {query : Query}
    (htext : query.text ∈ k.texts) {after : σ} (hcache : p.cache = some cache)
    (hget : FactsCache.get cache (p.key query.text) = (some facts, after)) :
    OutcomesBeside k
      ⟨{ p.count fun s => { s with cacheHits := s.cacheHits + 1 } with cache := some after }, [],
        some (facts.withId query.id)⟩
      (q.extractFresh r query) := by
  have hholds := h.holds cache hcache
  rw [h.key] at hget
  have hout := outcome_withId (hholds.hit hlast htext (by rw [hget])) query.id
  have htheirs : extract q.options.extract query.id query.text =
      extract k.options.extract query.id query.text := by rw [h.options']
  simp only [Processor.extractFresh, htheirs, hout]
  refine ⟨⟨h.options, h.options', h.key, ?_, ?_, h.stats, ?_⟩, ?_, rfl⟩
  · intro cache' hcache'
    obtain rfl := Option.some.inj hcache'
    have hnext := hholds.get (k.key query.text)
    rwa [hget] at hnext
  · simp [h.plain]
  · have := h.extractions
    simp only [Processor.count]
    omega
  · exact (errorsOf_trace _ _ _).symm

theorem Beside.lookUp (h : Beside k p q) (hlast : FactsCache.ReturnsLast σ) (r : Record) {query : Query}
    (htext : query.text ∈ k.texts) :
    OutcomesBeside k (p.lookUp r query) (q.lookUp r query) := by
  have hplain : q.lookUp r query = q.extractFresh r query := by rw [Processor.lookUp, h.plain]
  rw [hplain, Processor.lookUp]
  split
  next => exact h.extractFresh r htext
  next cache hcache =>
    split
    next facts after hget => exact h.hit hlast r htext hcache hget
    next after hget =>
      have hmissed : Beside k { p with cache := some after } q := by
        refine ⟨h.options, h.options', h.key, ?_, h.plain, h.stats, h.extractions⟩
        intro cache' hcache'
        obtain rfl := Option.some.inj hcache'
        have hnext := (h.holds cache hcache).get (p.key query.text)
        rwa [hget] at hnext
      exact hmissed.extractFresh r htext

/-- A line does the same to both processors. -/
theorem Beside.processLine (h : Beside k p q) (hlast : FactsCache.ReturnsLast σ) {line : Line}
    (htext : ∀ query, line.query? = some query → query.text ∈ k.texts) :
    OutcomesBeside k (p.processLine line) (q.processLine line) := by
  unfold Processor.processLine
  cases hline : line.text with
  | none =>
    rw [h.options, h.options']
    exact h.skip _
  | some text =>
    cases hrecord : Record.ofLine? line.number text with
    | none =>
      simp only [hrecord]
      exact h.skip _
    | some r =>
      have hcounted : Beside k (p.count fun s => { s with records := s.records + 1 })
          (q.count fun s => { s with records := s.records + 1 }) := by
        refine h.count ?_ ?_ <;> exact fun _ => rfl
      simp only [hrecord, Processor.processRecord]
      cases hdecode : r.decode with
      | error e => exact hcounted.fail _
      | ok query =>
        refine hcounted.lookUp hlast r (htext query ?_)
        simp [Line.query?, hline, hrecord, hdecode, Except.toOption]

/-! ### All lines -/

/-- Runs in progress with a cache and without one. -/
structure ProgressBeside (k : Keyed) (a b : Progress σ) : Prop where
  processor : Beside k a.processor b.processor
  written : a.written.map (Prod.map id Stats.withoutHits) =
    b.written.map (Prod.map id Stats.withoutHits)
  errors : errorsOf a.log = errorsOf b.log

theorem errorsOf_append (log log' : List RunRecord) :
    errorsOf (log ++ log') = errorsOf log ++ errorsOf log' := List.filter_append ..

theorem errorsOf_reverse (log : List RunRecord) :
    errorsOf log.reverse = (errorsOf log).reverse := List.filter_reverse ..

/-- Lines do the same to both runs and end them alike. -/
theorem ProgressBeside.runLines {a b : Progress σ} (h : ProgressBeside k a b)
    (hlast : FactsCache.ReturnsLast σ)
    (context : Context) (sink : Sink) (taken : Nat) {lines : List Line}
    (htexts : ∀ line ∈ lines, ∀ query, line.query? = some query → query.text ∈ k.texts) :
    ProgressBeside k (runLines context sink taken a lines).1
        (runLines context sink taken b lines).1 ∧
      (runLines context sink taken a lines).2 = (runLines context sink taken b lines).2 := by
  induction lines generalizing a b taken with
  | nil => exact ⟨h, rfl⟩
  | cons line lines ih =>
    have hrest := fun line' hline => htexts line' (List.mem_cons_of_mem _ hline)
    have hline := h.processor.processLine hlast (htexts line List.mem_cons_self)
    have hlog : errorsOf ((a.processor.processLine line).log.reverse ++ a.log) =
        errorsOf ((b.processor.processLine line).log.reverse ++ b.log) := by
      rw [errorsOf_append, errorsOf_append, errorsOf_reverse, errorsOf_reverse, hline.errors,
        h.errors]
    cases hoff : context.calledOff taken with
    | some why =>
      simp only [Processor.runLines, hoff]
      exact ⟨h, trivial⟩
    | none =>
      cases hfacts : (b.processor.processLine line).facts with
      | none =>
        simp only [Processor.runLines, hoff, hline.facts.trans hfacts, hfacts]
        refine ih ?_ _ hrest
        exact ⟨hline.processor, h.written, hlog⟩
      | some facts =>
        cases hsink : sink facts with
        | some why =>
          simp only [Processor.runLines, hoff, hline.facts.trans hfacts, hfacts, hsink]
          exact ⟨⟨hline.processor, h.written, hlog⟩, trivial⟩
        | none =>
          simp only [Processor.runLines, hoff, hline.facts.trans hfacts, hfacts, hsink]
          refine ih ⟨?_, ?_, hlog⟩ _ hrest
          · dsimp only
            refine hline.processor.count ?_ ?_ <;> exact fun _ => rfl
          · simp only [List.map_cons, h.written, Prod.map, hline.processor.stats]

/-- A run does the same to both processors. -/
theorem Beside.run (h : Beside k p q) (hlast : FactsCache.ReturnsLast σ) {job : Job}
    (htexts : ∀ text ∈ job.texts k.options.limit, text ∈ k.texts) :
    Beside k (p.run job.context job.source job.sink).2
        (q.run job.context job.source job.sink).2 ∧
      Alike (p.run job.context job.source job.sink) (q.run job.context job.source job.sink) := by
  have hstart : ProgressBeside k ⟨p, [], []⟩ ⟨q, [], []⟩ := ⟨h, rfl, rfl⟩
  have hlines : ∀ line ∈ job.source.lines k.options.limit, ∀ query, line.query? = some query →
      query.text ∈ k.texts := by
    intro line hline query hquery
    exact htexts _ (List.mem_filterMap.2 ⟨line, hline, by rw [hquery]; rfl⟩)
  obtain ⟨hend, herror⟩ := hstart.runLines hlast job.context job.sink 0 hlines
  simp only [Processor.run, h.options, h.options']
  refine ⟨hend.processor, ?_, ?_, ?_, hend.processor.stats, hend.processor.extractions⟩
  · rw [List.map_reverse, List.map_reverse, hend.written]
  · rw [errorsOf_reverse, errorsOf_reverse, hend.errors]
  · rw [herror]

/-- Runs one after another do the same to both processors. -/
theorem Beside.runAll (h : Beside k p q) (hlast : FactsCache.ReturnsLast σ) {jobs : List Job}
    (htexts : ∀ job ∈ jobs, ∀ text ∈ job.texts k.options.limit, text ∈ k.texts) :
    List.Forall₂ Alike (p.runAll jobs) (q.runAll jobs) := by
  induction jobs generalizing p q with
  | nil => exact .nil
  | cons job jobs ih =>
    obtain ⟨hnext, halike⟩ := h.run hlast (htexts job List.mem_cons_self)
    exact .cons halike (ih hnext fun job' hjob => htexts job' (List.mem_cons_of_mem _ hjob))

/-- Processors start beside each other. -/
theorem beside_new (k : Keyed) (size : Nat) :
    ∃ cached plain : Processor σ,
      withCache σ k.key k.options size = .ok cached ∧ withCache σ k.key k.options 0 = .ok plain ∧
        Beside k cached plain := by
  have hsize : ¬(size : Int) < 0 := by omega
  refine ⟨_, _, if_neg hsize, if_neg (by decide), rfl, rfl, rfl, ?_, rfl, rfl, rfl⟩
  intro cache hcache
  dsimp only at hcache
  split at hcache
  · cases hcache
  · obtain rfl := Option.some.inj hcache
    exact k.holds_empty _

end Processor
end KustoFacts
