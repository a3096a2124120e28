import KustoFacts.Proofs.Records.Balance

/-!
    What a run comes to. A run that is not called off writes the facts that its lines stand for, in
    their order, up to the first that the sink refuses, and counts what its lines stand for. This is
    shown line by line for a processor without a cache; a processor with one stays beside it, as long
    as no two texts have the same key. With a text that has the key of an earlier one, a run still
    balances, but writes the facts of the other text (`written_of_same_key`). -/

namespace KustoFacts

/-! ### Without a cache -/

namespace Processor

variable {σ : Type} [FactsCache σ]

/-- A processor without a cache. -/
structure Plain (options : ProcessorOptions) (p : Processor σ) : Prop where
  options : p.options = options
  cache : p.cache = none

variable {options : ProcessorOptions} {p : Processor σ}

/-- What a line does to a processor without a cache. -/
structure Reads (options : ProcessorOptions) (line : Line) (before : Stats)
    (outcome : LineOutcome σ) : Prop where
  plain : Plain options outcome.processor
  facts : outcome.facts = line.facts? options.extract
  stats : outcome.processor.stats = before + line.counted options.extract

/-- An extraction yields what its outcome holds, or fails. -/
theorem Plain.extractFresh (h : Plain options p) (r : Record) (q : Query) :
    let facts := (extract options.extract q.id q.text).outcome.toOption
    Plain options (p.extractFresh r q).processor ∧ (p.extractFresh r q).facts = facts ∧
      (p.extractFresh r q).processor.stats =
        p.stats + { (0 : Stats) with failed := if facts.isNone then 1 else 0 } := by
  obtain ⟨rfl, hcache⟩ := h
  cases hout : (extract p.options.extract q.id q.text).outcome with
  | error e =>
    simp only [Processor.extractFresh, hout]
    exact ⟨⟨rfl, hcache⟩, rfl, rfl⟩
  | ok facts =>
    simp only [Processor.extractFresh, hout]
    exact ⟨⟨rfl, by simp [hcache]⟩, rfl, rfl⟩

theorem Plain.processRecord (h : Plain options p) (r : Record) :
    let facts := r.facts? options.extract
    Plain options (p.processRecord r).processor ∧ (p.processRecord r).facts = facts ∧
      (p.processRecord r).processor.stats =
        p.stats + { (0 : Stats) with records := 1, failed := if facts.isNone then 1 else 0 } := by
  have hcounted : Plain options (p.count fun s => { s with records := s.records + 1 }) :=
    ⟨h.options, h.cache⟩
  rw [Processor.processRecord]
  cases hdecode : r.decode with
  | error e =>
    have hfacts : r.facts? options.extract = none := by rw [Record.facts?, hdecode]; rfl
    simp only [hfacts]
    exact ⟨⟨h.options, h.cache⟩, rfl, rfl⟩
  | ok q =>
    have hfacts : r.facts? options.extract =
        (extract options.extract q.id q.text).outcome.toOption := by rw [Record.facts?, hdecode]; rfl
    obtain ⟨hplain, hfound, hstats⟩ := hcounted.extractFresh r q
    simp only [Processor.lookUp, hcounted.cache]
    refine ⟨hplain, hfound.trans hfacts.symm, ?_⟩
    rw [hstats, hfacts]
    rfl

theorem Plain.processLine (h : Plain options p) (line : Line) :
    Reads options line p.stats (p.processLine line) := by
  have hfields := line.fields?_eq
  have hfacts := line.facts?_eq options.extract
  rw [Line.record?] at hfields hfacts
  rw [Processor.processLine]
  cases htext : line.text with
  | none =>
    rw [htext] at hfields hfacts
    have hcounted : line.counted options.extract = { (0 : Stats) with skipped := 1 } := by
      rw [Line.counted, hfields]; rfl
    exact ⟨⟨h.options, h.cache⟩, hfacts.symm, hcounted ▸ rfl⟩
  | some text =>
    rw [htext] at hfields hfacts
    dsimp only [Option.bind_some] at hfields hfacts
    cases hrecord : Record.ofLine? line.number text with
    | none =>
      rw [hrecord] at hfields hfacts
      have hcounted : line.counted options.extract = { (0 : Stats) with skipped := 1 } := by
        rw [Line.counted, hfields]; rfl
      simp only [hrecord]
      exact ⟨⟨h.options, h.cache⟩, hfacts.symm, hcounted ▸ rfl⟩
    | some r =>
      rw [hrecord] at hfields hfacts
      obtain ⟨hplain, hfound, hstats⟩ := h.processRecord r
      simp only [hrecord]
      refine ⟨hplain, hfound.trans hfacts.symm, ?_⟩
      rw [hstats, Line.counted, hfields, hfacts]
      by_cases hnone : (r.facts? options.extract).isNone
      · simp [hnone]
      · simp [hnone]

/-! ### Runs -/

/-- What lines come to, from a run in progress on, without a cache. -/
structure ComesTo (options : ProcessorOptions) (sink : Sink) (lines : List Line)
    (before : Progress σ) (done : Progress σ × Option RunError) : Prop where
  written : done.1.written.map Prod.fst =
    ((factsOf options.extract lines).takeWhile sink.takes).reverse ++ before.written.map Prod.fst
  error : done.2 = refusal? options.extract sink lines
  stats : done.1.processor.stats = before.processor.stats + tally options.extract sink lines

section ComesTo

omit [FactsCache σ]

variable {sink : Sink} {line : Line} {lines : List Line} {before next : Progress σ}
  {done : Progress σ × Option RunError} {facts : Facts}

/-- A line without facts comes first. -/
theorem ComesTo.cons_pass (h : ComesTo options sink lines next done)
    (hfacts : line.facts? options.extract = none)
    (hstats : next.processor.stats = before.processor.stats + line.counted options.extract)
    (hwritten : next.written = before.written) :
    ComesTo options sink (line :: lines) before done where
  written := by rw [h.written, hwritten]; simp [factsOf, hfacts]
  error := by rw [h.error]; simp [refusal?, factsOf, hfacts]
  stats := by
    have htaken : (line.facts? options.extract).all sink.takes = true := by simp [hfacts]
    have hline : line.stats options.extract sink = line.counted options.extract :=
      line.stats_eq_counted (by simp [hfacts])
    rw [h.stats, hstats, tally_cons_of_taken htaken, hline, Stats.add_assoc]

/-- A line with facts that are taken comes first. -/
theorem ComesTo.cons_emit (h : ComesTo options sink lines next done)
    (hfacts : line.facts? options.extract = some facts) (hsink : sink facts = none)
    (hstats : next.processor.stats = before.processor.stats + line.counted options.extract +
      { (0 : Stats) with emitted := 1 })
    (hwritten : next.written.map Prod.fst = facts :: before.written.map Prod.fst) :
    ComesTo options sink (line :: lines) before done where
  written := by
    have htakes : sink.takes facts = true := by simp [Sink.takes, hsink]
    rw [h.written, hwritten]
    simp [factsOf, hfacts, htakes]
  error := by rw [h.error]; simp [refusal?, factsOf, hfacts, hsink]
  stats := by
    have htakes : sink.takes facts = true := by simp [Sink.takes, hsink]
    have htaken : (line.facts? options.extract).all sink.takes = true := by simp [hfacts, htakes]
    rw [h.stats, hstats, tally_cons_of_taken htaken, Line.stats_eq_emitted hfacts htakes,
      Stats.add_assoc, Stats.add_assoc, Stats.add_assoc]

/-- A line with facts that are refused is the last. -/
theorem ComesTo.cons_refuse {why : Bytes} (hfacts : line.facts? options.extract = some facts)
    (hsink : sink facts = some why)
    (hstats : next.processor.stats = before.processor.stats + line.counted options.extract)
    (hwritten : next.written = before.written) :
    ComesTo options sink (line :: lines) before (next, some (.writing facts.id why)) where
  written := by simp [factsOf, hfacts, Sink.takes, hsink, hwritten]
  error := by simp [refusal?, factsOf, hfacts, hsink]
  stats := by
    have hrefused : sink.takes facts = false := by simp [Sink.takes, hsink]
    rw [tally_cons_of_refused hfacts hrefused,
      line.stats_eq_counted (by simp [hfacts, hrefused]), hstats]

end ComesTo

/-- Without a cache, lines come to what they stand for. -/
theorem Plain.comesTo (before : Progress σ) (h : Plain options before.processor) (sink : Sink)
    (taken : Nat) (lines : List Line) :
    ComesTo options sink lines before (runLines .never sink taken before lines) := by
  induction lines generalizing before taken with
  | nil => exact ⟨rfl, rfl, rfl⟩
  | cons line lines ih =>
    obtain ⟨hplain, hfacts, hstats⟩ := h.processLine line
    rw [runLines]
    cases hline : line.facts? options.extract with
    | none =>
      simp only [Context.calledOff_never, hfacts.trans hline]
      refine (ih _ ?_ (taken + 1)).cons_pass hline hstats rfl
      exact hplain
    | some facts =>
      cases hsink : sink facts with
      | none =>
        simp only [Context.calledOff_never, hfacts.trans hline, hsink]
        refine (ih _ ?_ (taken + 1)).cons_emit hline hsink ?_ rfl
        · exact ⟨hplain.options, hplain.cache⟩
        · rw [← hstats]
          rfl
      | some why =>
        simp only [Context.calledOff_never, hfacts.trans hline, hsink]
        exact .cons_refuse hline hsink hstats rfl

/-- What a run over a source comes to: what is written, how it ends, and what it counts. -/
structure Accounts (options : ProcessorOptions) (source : Source) (sink : Sink) (before : Stats)
    (done : RunReport × Processor σ) : Prop where
  written : done.1.written.map Prod.fst =
    (factsOf options.extract (source.lines options.limit)).takeWhile sink.takes
  error : done.1.error =
    (refusal? options.extract sink (source.lines options.limit)).or (endError source.ending)
  stats : done.2.stats.withoutHits =
    (before + tally options.extract sink (source.lines options.limit)).withoutHits

theorem Plain.accounts (h : Plain options p) (source : Source) (sink : Sink) :
    Accounts options source sink p.stats (p.run .never source sink) := by
  obtain ⟨rfl, hcache⟩ := h
  have hlines := Plain.comesTo ⟨p, [], []⟩ ⟨rfl, hcache⟩ sink 0 (source.lines p.options.limit)
  refine ⟨?_, ?_, ?_⟩
  · simp only [run, List.map_reverse, hlines.written]
    simp
  · simp only [run, hlines.error]
  · simp only [run, hlines.stats]

/-- A cache changes nothing in what a run comes to. -/
theorem Beside.accounts {k : Keyed} {q : Processor σ} (h : Beside k p q)
    (hlast : FactsCache.ReturnsLast σ) (source : Source) (sink : Sink)
    (htexts : ∀ text ∈ (Job.mk .never source sink).texts k.options.limit, text ∈ k.texts) :
    Accounts k.options source sink p.stats (p.run .never source sink) := by
  have hplain := Plain.accounts ⟨h.options', h.plain⟩ source sink
  have halike := (h.run hlast htexts).2
  refine ⟨?_, halike.error.trans hplain.error, ?_⟩
  · have hfst := congrArg (List.map Prod.fst) halike.written
    simp only [List.map_map] at hfst
    exact hfst.trans hplain.written
  · rw [halike.stats, hplain.stats, Stats.withoutHits_add, Stats.withoutHits_add, h.stats]

/-! ### Earlier runs -/

/-- The processor after runs made one after another. -/
def afterAll (p : Processor σ) : List Job → Processor σ
  | [] => p
  | job :: rest => afterAll (p.run job.context job.source job.sink).2 rest

theorem Plain.runLines (context : Context) (sink : Sink) (taken : Nat) (before : Progress σ)
    (h : Plain options before.processor) (lines : List Line) :
    Plain options (Processor.runLines context sink taken before lines).1.processor := by
  induction lines generalizing taken before with
  | nil => exact h
  | cons line lines ih =>
    have hline := (h.processLine line).plain
    rw [Processor.runLines]
    cases context.calledOff taken with
    | some why => exact h
    | none =>
      dsimp only
      split
      · exact ih _ _ hline
      · split
        · exact hline
        · exact ih _ _ ⟨hline.options, hline.cache⟩

theorem Plain.afterAll (h : Plain options p) (jobs : List Job) :
    Plain options (p.afterAll jobs) := by
  induction jobs generalizing p with
  | nil => exact h
  | cons job jobs ih => exact ih (h.runLines _ _ _ ⟨p, [], []⟩ _)

theorem Beside.afterAll {k : Keyed} {q : Processor σ} (h : Beside k p q)
    (hlast : FactsCache.ReturnsLast σ) {jobs : List Job}
    (htexts : ∀ job ∈ jobs, ∀ text ∈ job.texts k.options.limit, text ∈ k.texts) :
    Beside k (p.afterAll jobs) (q.afterAll jobs) := by
  induction jobs generalizing p q with
  | nil => exact h
  | cons job jobs ih =>
    obtain ⟨hnext, -⟩ := h.run hlast (htexts job List.mem_cons_self)
    exact ih hnext fun job' hjob => htexts job' (List.mem_cons_of_mem _ hjob)

/-- Runs made one after another leave the options as they are. -/
theorem options_afterAll (p : Processor σ) (jobs : List Job) :
    (p.afterAll jobs).options = p.options := by
  induction jobs generalizing p with
  | nil => rfl
  | cons job jobs ih => exact (ih _).trans (options_runLines ..)

/-! ### Any cache -/

variable {key : Bytes → UInt64} {size : Nat}

theorem exists_withCache (key : Bytes → UInt64) (options : ProcessorOptions) (size : Nat) :
    ∃ p : Processor σ, withCache σ key options size = .ok p ∧ p.options = options :=
  ⟨_, if_neg (by omega), rfl⟩

omit [FactsCache σ] in
/-- The lines a run takes are the ones up to the first whose facts are refused, once it is known to
    write what they stand for. -/
theorem Accounts.taken_eq {source : Source} {sink : Sink} {before counted : Stats}
    {done : RunReport × Processor σ} {taken : List Line}
    (h : Accounts options source sink before done) (hstats : done.2.stats = before + counted)
    (hbalance : Balances (source.lines options.limit) (done.1.written.map Prod.fst)
      (done.1.error.any RunError.isRefusal) taken counted) :
    taken = takenLines options.extract sink (source.lines options.limit) := by
  have hcounted := h.stats
  rw [hstats, Stats.withoutHits_add, Stats.withoutHits_add] at hcounted
  have hrecords := congrArg Stats.records hcounted
  have hskipped := congrArg Stats.skipped hcounted
  have hlength : taken.length =
      (takenLines options.extract sink (source.lines options.limit)).length := by
    rw [hbalance.length, length_takenLines]
    simp only [Stats.withoutHits, Stats.records_add, Stats.skipped_add] at hrecords hskipped
    omega
  -- both are beginnings of the same lines
  exact (List.prefix_of_prefix_length_le hbalance.first (takenLines_first _) hlength.le).eq_of_length
    hlength

/-- As long as no two of the texts that occur have the same key, or without a cache, a run comes to
    what its lines stand for. -/
theorem accounts_afterAll {earlier : List Job} {source : Source} {sink : Sink}
    (hp : withCache σ key options size = .ok p)
    (hkey : size = 0 ∨ FactsCache.ReturnsLast σ ∧ Set.InjOn key
      {text | text ∈ Job.occurring options.limit (earlier ++ [⟨.never, source, sink⟩])}) :
    Accounts options source sink (p.afterAll earlier).stats
      ((p.afterAll earlier).run .never source sink) := by
  rcases hkey with rfl | ⟨hlast, hkey⟩
  · have hplain : Plain options p := by
      cases hp
      exact ⟨rfl, rfl⟩
    exact (hplain.afterAll earlier).accounts source sink
  · let k : Keyed := {
      options := options
      key := key
      texts := Job.occurring options.limit (earlier ++ [Job.mk .never source sink])
      distinct := fun a ha b hb => hkey ha hb }
    have htexts : ∀ job ∈ earlier ++ [⟨.never, source, sink⟩],
        ∀ text ∈ job.texts k.options.limit, text ∈ k.texts :=
      fun job hjob text htext => List.mem_flatMap.2 ⟨job, hjob, htext⟩
    obtain ⟨cached, plain, hcached, -, hbeside⟩ := beside_new (σ := σ) k size
    obtain rfl : cached = p := Except.ok.inj (hcached.symm.trans hp)
    have hafter := hbeside.afterAll hlast fun job hjob => htexts job (List.mem_append_left _ hjob)
    exact hafter.accounts hlast source sink (htexts _ (List.mem_append_right _ List.mem_cons_self))

/-- A run that is not called off takes lines in order, counts each as a record or as skipped, and
    each record as emitted or as failed, except for the one whose facts are refused, which is the
    last line taken. What it writes has the ids of its records. All this holds whatever cache there
    is, after any earlier runs, even if a cache answers for one text with the facts of another.

    If there is no cache, or one that returns only what was put under a key last, and no two of the
    texts that occur have the same key, then the run writes exactly the facts that its lines stand
    for, up to the first that the sink refuses, takes no line after that one, and ends with the
    refusal, or else as its source does. -/
theorem run_accounts (key : Bytes → UInt64) (options : ProcessorOptions) (size : Nat)
    (earlier : List Job) (source : Source) (sink : Sink) :
    ∃ p : Processor σ, withCache σ key options size = .ok p ∧
      let before := p.afterAll earlier
      let done := before.run .never source sink
      let lines := source.lines options.limit
      ∃ taken counted, done.2.stats = before.stats + counted ∧
        Balances lines (done.1.written.map Prod.fst) (done.1.error.any RunError.isRefusal) taken
          counted ∧
        ((size = 0 ∨ FactsCache.ReturnsLast σ ∧ Set.InjOn key
            {text | text ∈ Job.occurring options.limit (earlier ++ [⟨.never, source, sink⟩])}) →
          taken = takenLines options.extract sink lines ∧
            Accounts options source sink before.stats done) := by
  obtain ⟨p, hp, hoptions⟩ := exists_withCache (σ := σ) key options size
  refine ⟨p, hp, ?_⟩
  have hbalances := balances_run (p.afterAll earlier) source sink
  rw [options_afterAll, hoptions] at hbalances
  obtain ⟨taken, counted, hstats, hbalance⟩ := hbalances
  refine ⟨taken, counted, hstats, hbalance, ?_⟩
  intro hkey
  have haccounts := accounts_afterAll hp hkey
  exact ⟨haccounts.taken_eq hstats hbalance, haccounts⟩

/-- After a run that put a text into the cache, a run over a line that is no record, one with the
    same text, and one that is refused. -/
theorem run_accounts_refused :
    let sink : Sink := fun facts => if facts.id = bytes "c" then some (bytes "closed") else none
    let source : Source := .ofText 3 (bytes "none\nb,VA==\nc,VQ==\nd,VA==\n") .complete
    let options : ProcessorOptions := ⟨⟨.empty, true⟩, 0⟩
    let earlier : List Job := [.ofText (bytes "a,VA==\n")]
    Set.InjOn digest
        {text | text ∈ Job.occurring options.limit (earlier ++ [⟨.never, source, sink⟩])} ∧
      ∃ p : Processor, Processor.new options 1 = .ok p ∧
        let before := p.afterAll earlier
        let done := before.run .never source sink
        let lines := source.lines options.limit
        ∃ taken counted, done.2.stats = before.stats + counted ∧
          Balances lines (done.1.written.map Prod.fst) (done.1.error.any RunError.isRefusal) taken
            counted ∧
          taken = takenLines options.extract sink lines ∧
            Accounts options source sink before.stats done := by
  intro sink source options earlier
  have htexts : Job.occurring options.limit (earlier ++ [⟨.never, source, sink⟩]) =
      [bytes "T", bytes "T", bytes "U", bytes "T"] := by decide +kernel
  have hkey : Set.InjOn digest
      {text | text ∈ Job.occurring options.limit (earlier ++ [⟨.never, source, sink⟩])} :=
    injOn_texts htexts (by decide)
  refine ⟨hkey, ?_⟩
  obtain ⟨p, hp, taken, counted, hstats, hbalance, hfaithful⟩ :=
    run_accounts (σ := Cache) digest options 1 earlier source sink
  exact ⟨p, hp, taken, counted, hstats, hbalance, hfaithful (.inr ⟨Cache.returnsLast, hkey⟩)⟩

/-- If the texts of two records have the same key, facts are written for the second that are those of
    the first. -/
theorem written_of_same_key {p : Processor} {first second : Line} {r r' : Record} {q q' : Query}
    {facts : Facts} (hcache : p.cache = some ⟨size + 1, []⟩)
    (hr : first.record? = some r) (hq : r.decode = .ok q)
    (hr' : second.record? = some r') (hq' : r'.decode = .ok q')
    (hfacts : (extract p.options.extract q.id q.text).outcome = .ok facts)
    (hkey : p.key q'.text = p.key q.text) :
    (Processor.runLines .never (fun _ => none) 0 ⟨p, [], []⟩ [first, second]).1.written.map Prod.fst =
      [facts.withId q'.id, facts] := by
  have hmiss : FactsCache.get (⟨size + 1, []⟩ : Cache) (p.key q.text) = (none, ⟨size + 1, []⟩) := rfl
  have hhit : FactsCache.get (FactsCache.add (⟨size + 1, []⟩ : Cache) (p.key q.text)
      (facts.withId [])) (p.key q.text) =
        (some (facts.withId []), ⟨size + 1, [(p.key q.text, facts.withId [])]⟩) := by
    simp [FactsCache.get, FactsCache.add, Cache.get, Cache.add, Cache.erase]
  have htwice : (facts.withId []).withId q'.id = facts.withId q'.id := by
    rw [Facts.withId_eq, Facts.withId_eq, Facts.withId_eq]
  simp [Processor.runLines, processLine_of_record hr, processLine_of_record hr', processRecord, hq,
    hq', lookUp, extractFresh, count, hcache, hmiss, hfacts, hkey, hhit, htwice]

/-- Two texts with the same digest: the table written for the second is the one that the first
    names. -/
theorem run_accounts_collision :
    let source : Source := .ofText 0
      (bytes "a,QWxwaGEgLy9mRTBKbERRQg==\nb,QmV0YSAgLy8ha3dkUkxIXg==\n") .complete
    let options : ProcessorOptions := ⟨⟨.empty, true⟩, 0⟩
    ∃ p : Processor, Processor.new options 1024 = .ok p ∧
      (p.run .never source fun _ => none).1.written.map (fun facts => facts.1.tables.items) =
        [[bytes "Alpha"], [bytes "Alpha"]] ∧
      (factsOf options.extract (source.lines options.limit)).map (fun facts => facts.tables.items) =
        [[bytes "Alpha"], [bytes "Beta"]] := by
  intro source options
  have houtcome (id text : Bytes) (found : List Finding)
      (h : (cleanRoot? .empty text).map (fun root => (root.inSlot .none).findings true) =
        some found) : (extract options.extract id text).outcome = .ok (.ofFindings id found) := by
    obtain ⟨parsed, hparse, hclean, hfound⟩ := parse_of_clean h
    exact hfound ▸ outcome_parsed hparse hclean
  have halpha := houtcome (bytes "a") (bytes "Alpha //fE0JlDQB") [.table (bytes "Alpha")]
    (by decide +kernel)
  have hbeta := houtcome (bytes "b") (bytes "Beta  //!kwdRLH^") [.table (bytes "Beta")]
    (by decide +kernel)
  let first : Line := ⟨1, some (bytes "a,QWxwaGEgLy9mRTBKbERRQg==")⟩
  let second : Line := ⟨2, some (bytes "b,QmV0YSAgLy8ha3dkUkxIXg==")⟩
  have hlines : source.lines options.limit = [first, second] := by decide +kernel
  have hr : first.record? = some ⟨1, bytes "a", bytes "QWxwaGEgLy9mRTBKbERRQg=="⟩ := by
    decide +kernel
  have hr' : second.record? = some ⟨2, bytes "b", bytes "QmV0YSAgLy8ha3dkUkxIXg=="⟩ := by
    decide +kernel
  have hq : Record.decode ⟨1, bytes "a", bytes "QWxwaGEgLy9mRTBKbERRQg=="⟩ =
      .ok ⟨bytes "a", bytes "Alpha //fE0JlDQB"⟩ := by decide +kernel
  have hq' : Record.decode ⟨2, bytes "b", bytes "QmV0YSAgLy8ha3dkUkxIXg=="⟩ =
      .ok ⟨bytes "b", bytes "Beta  //!kwdRLH^"⟩ := by decide +kernel
  obtain ⟨p, hp, hoptions, hdigest, hcache⟩ : ∃ p : Processor, Processor.new options 1024 = .ok p ∧
      p.options = options ∧ p.key = digest ∧ p.cache = some ⟨1023 + 1, []⟩ :=
    ⟨_, rfl, rfl, rfl, rfl⟩
  have hkey : p.key (bytes "Beta  //!kwdRLH^") = p.key (bytes "Alpha //fE0JlDQB") := by
    rw [hdigest]
    decide +kernel
  refine ⟨p, hp, ?_, ?_⟩
  · have hwritten : (p.run .never source fun _ => none).1.written.map Prod.fst =
        [.ofFindings (bytes "a") [.table (bytes "Alpha")],
          (Facts.ofFindings (bytes "a") [.table (bytes "Alpha")]).withId (bytes "b")] := by
      rw [← hoptions] at halpha
      rw [run, hoptions, hlines, List.map_reverse,
        written_of_same_key hcache hr hq hr' hq' halpha hkey]
      rfl
    have htables := congrArg (List.map fun facts => facts.tables.items) hwritten
    rw [List.map_map] at htables
    exact htables.trans (by decide +kernel)
  · have hfacts : factsOf options.extract [first, second] =
        [.ofFindings (bytes "a") [.table (bytes "Alpha")],
          .ofFindings (bytes "b") [.table (bytes "Beta")]] := by
      simp [factsOf, Line.facts?_eq, hr, hr', Record.facts?, hq, hq', Except.toOption, halpha, hbeta]
    rw [hlines, hfacts]
    decide +kernel

end Processor
end KustoFacts
