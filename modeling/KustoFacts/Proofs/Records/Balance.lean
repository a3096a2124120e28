import KustoFacts.Proofs.Records.Tally

/-!
    The balance of a run, whatever cache is behind its processor. A line is skipped, or it is a
    record; a record fails, or yields facts under its own id, which are written or refused. So the
    counters account for every line that a run takes, even if a cache answers with the facts of
    another text. Which facts a record yields is another matter. -/

namespace KustoFacts

/-- Whether a run ends because its sink refuses facts. -/
def RunError.isRefusal : RunError → Bool
  | .writing _ _ => true
  | _ => false

/-- The end of a source is no refusal. -/
theorem any_isRefusal_or (ended : Option RunError) (ending : SourceEnd) :
    (ended.or (Processor.endError ending)).any RunError.isRefusal = ended.any RunError.isRefusal := by
  cases ended with
  | none => cases ending <;> rfl
  | some e => rfl

/-- What a run writes and counts, held against the lines it takes. The lines come first in the
    source, and all are taken unless facts are refused. Each of them is counted once, as a record or
    as skipped, and each record once, as emitted or as failed, except for the one that is refused.
    What is written has the ids of records, in the order of the lines. -/
structure Balances (lines : List Line) (written : List Facts) (refused : Bool) (taken : List Line)
    (counted : Stats) : Prop where
  first : taken <+: lines
  whole : refused = false → taken = lines
  records : counted.records = taken.countP (·.record?.isSome)
  length : taken.length = counted.records + counted.skipped
  emitted : counted.emitted = written.length
  settled : counted.records = counted.emitted + counted.failed + refused.toNat
  ids : (written.map Facts.id).Sublist (taken.filterMap fun line => line.record?.map Record.id)

namespace Balances

variable {line : Line} {lines taken : List Line} {written : List Facts} {refused : Bool}
  {counted : Stats}

theorem nil : Balances [] [] false [] 0 := ⟨List.nil_prefix, fun _ => rfl, rfl, rfl, rfl, rfl, .slnil⟩

/-- A line whose counts balance comes first. -/
theorem cons (more : List Facts) (s : Stats) (h : Balances lines written refused taken counted)
    (hrecords : s.records = if line.record?.isSome then 1 else 0)
    (hlength : s.records + s.skipped = 1) (hemitted : s.emitted = more.length)
    (hsettled : s.records = s.emitted + s.failed)
    (hids : (more.map Facts.id).Sublist (line.record?.map Record.id).toList) :
    Balances (line :: lines) (more ++ written) refused (line :: taken) (s + counted) where
  first := List.cons_prefix_cons.2 ⟨rfl, h.first⟩
  whole := fun hrefused => by rw [h.whole hrefused]
  records := by rw [Stats.records_add, hrecords, h.records, List.countP_cons, Nat.add_comm]
  length := by
    rw [List.length_cons, h.length, Stats.records_add, Stats.skipped_add]
    omega
  emitted := by rw [Stats.emitted_add, hemitted, h.emitted, List.length_append]
  settled := by
    rw [Stats.records_add, Stats.emitted_add, Stats.failed_add, hsettled, h.settled]
    omega
  ids := by
    have hline : (line :: taken).filterMap (fun line => line.record?.map Record.id) =
        (line.record?.map Record.id).toList ++
          taken.filterMap fun line => line.record?.map Record.id := by
      rw [List.filterMap_cons]
      cases line.record? <;> rfl
    rw [List.map_append, hline]
    exact hids.append h.ids

/-- A record whose facts are refused is the last line. -/
theorem refuse {r : Record} (hrecord : line.record? = some r) (hits : Nat) :
    Balances (line :: lines) [] true [line] { (0 : Stats) with records := 1, cacheHits := hits } where
  first := List.cons_prefix_cons.2 ⟨rfl, List.nil_prefix⟩
  whole := nofun
  records := by simp [hrecord]
  length := rfl
  emitted := rfl
  settled := rfl
  ids := List.nil_sublist _

end Balances

namespace Processor

variable {σ : Type} [FactsCache σ] {p : Processor σ} {r : Record} {q : Query}

/-! ### One line -/

/-- What a line does to a processor: the options stay, and the line is skipped, or it is a record
    that fails, or one that yields facts under its id, from a cache or not. -/
inductive Counts (line : Line) (before : Processor σ) (outcome : LineOutcome σ) : Prop where
  | skips (options : outcome.processor.options = before.options) (hrecord : line.record? = none)
      (hfacts : outcome.facts = none)
      (hstats : outcome.processor.stats = before.stats + { (0 : Stats) with skipped := 1 })
  | fails (options : outcome.processor.options = before.options) (r : Record)
      (hrecord : line.record? = some r) (hfacts : outcome.facts = none)
      (hstats : outcome.processor.stats =
        before.stats + { (0 : Stats) with records := 1, failed := 1 })
  | yields (options : outcome.processor.options = before.options) (r : Record) (facts : Facts)
      (hits : Nat) (hrecord : line.record? = some r) (hfacts : outcome.facts = some facts)
      (hid : facts.id = r.id)
      (hstats : outcome.processor.stats =
        before.stats + { (0 : Stats) with records := 1, cacheHits := hits })

omit [FactsCache σ] in
theorem Counts.options {line : Line} {outcome : LineOutcome σ} (h : Counts line p outcome) :
    outcome.processor.options = p.options := by
  cases h <;> assumption

omit [FactsCache σ] in
/-- A line without facts is skipped or fails, and nothing is emitted for it. -/
theorem Counts.of_none {line : Line} {outcome : LineOutcome σ} (h : Counts line p outcome)
    (hnone : outcome.facts = none) :
    ∃ s : Stats, outcome.processor.stats = p.stats + s ∧
      (s.records = if line.record?.isSome then 1 else 0) ∧ s.records + s.skipped = 1 ∧
      s.emitted = 0 ∧ s.records = s.emitted + s.failed := by
  cases h with
  | skips options hrecord hfacts hstats => exact ⟨_, hstats, by simp [hrecord], rfl, rfl, rfl⟩
  | fails options r hrecord hfacts hstats => exact ⟨_, hstats, by simp [hrecord], rfl, rfl, rfl⟩
  | yields options r facts hits hrecord hfacts hid hstats =>
    rw [hfacts] at hnone
    cases hnone

omit [FactsCache σ] in
/-- A line with facts is a record, whose id they have. -/
theorem Counts.of_some {line : Line} {outcome : LineOutcome σ} {facts : Facts}
    (h : Counts line p outcome) (hsome : outcome.facts = some facts) :
    ∃ r hits, line.record? = some r ∧ facts.id = r.id ∧
      outcome.processor.stats = p.stats + { (0 : Stats) with records := 1, cacheHits := hits } := by
  cases h with
  | skips options hrecord hfacts hstats =>
    rw [hfacts] at hsome
    cases hsome
  | fails options r hrecord hfacts hstats =>
    rw [hfacts] at hsome
    cases hsome
  | yields options r facts' hits hrecord hfacts hid hstats =>
    rw [hfacts] at hsome
    cases hsome
    exact ⟨r, hits, hrecord, hid, hstats⟩

/-- What a query does to a processor: it fails, or yields facts under its id. -/
inductive Settles (id : Bytes) (before : Processor σ) (outcome : LineOutcome σ) : Prop where
  | fails (options : outcome.processor.options = before.options) (hfacts : outcome.facts = none)
      (hstats : outcome.processor.stats = before.stats + { (0 : Stats) with failed := 1 })
  | yields (options : outcome.processor.options = before.options) (facts : Facts) (hits : Nat)
      (hfacts : outcome.facts = some facts) (hid : facts.id = id)
      (hstats : outcome.processor.stats = before.stats + { (0 : Stats) with cacheHits := hits })

theorem settles_extractFresh (p : Processor σ) (r : Record) (q : Query) :
    Settles q.id p (p.extractFresh r q) := by
  cases hout : (extract p.options.extract q.id q.text).outcome with
  | error e =>
    simp only [extractFresh, hout]
    exact .fails rfl rfl rfl
  | ok facts =>
    simp only [extractFresh, hout]
    obtain ⟨parsed, -, -, hfacts⟩ := parse_of_outcome hout
    exact .yields rfl facts 0 rfl (hfacts ▸ Facts.id_ofFindings ..) rfl

theorem settles_lookUp (p : Processor σ) (r : Record) (q : Query) :
    Settles q.id p (p.lookUp r q) := by
  rw [lookUp]
  split
  · exact settles_extractFresh p r q
  · split
    next facts after hget => exact .yields rfl _ 1 rfl rfl rfl
    next after hget =>
      -- what the look-up did to the cache is no matter here
      cases settles_extractFresh { p with cache := some after } r q with
      | fails options hfacts hstats => exact .fails options hfacts hstats
      | yields options facts hits hfacts hid hstats =>
        exact .yields options facts hits hfacts hid hstats

theorem counts_processRecord {line : Line} (hrecord : line.record? = some r) (p : Processor σ) :
    Counts line p (p.processRecord r) := by
  rw [processRecord]
  cases hdecode : r.decode with
  | error e => exact .fails rfl r hrecord rfl rfl
  | ok q =>
    have hid : q.id = r.id := by
      rw [Record.decode] at hdecode
      split at hdecode <;> cases hdecode
      rfl
    have hadd (s : Stats) (failed hits : Nat) :
        ({ s with records := s.records + 1 } : Stats) +
            { (0 : Stats) with failed := failed, cacheHits := hits } =
          s + { (0 : Stats) with records := 1, failed := failed, cacheHits := hits } := by
      ext <;> simp
    dsimp only
    cases settles_lookUp (p.count fun s => { s with records := s.records + 1 }) r q with
    | fails options hfacts hstats =>
      exact .fails options r hrecord hfacts (hstats.trans (hadd _ 1 0))
    | yields options facts hits hfacts hq hstats =>
      exact .yields options r facts hits hrecord hfacts (hq.trans hid) (hstats.trans (hadd _ 0 hits))

theorem processLine_of_record {line : Line} (h : line.record? = some r) (p : Processor σ) :
    p.processLine line = p.processRecord r := by
  obtain ⟨text, htext, hr⟩ := Option.bind_eq_some_iff.1 h
  simp [processLine, htext, hr]

theorem processLine_of_no_record {line : Line} (h : line.record? = none) (p : Processor σ) :
    ∃ log, p.processLine line = p.skip log := by
  rw [processLine]
  cases htext : line.text with
  | none => exact ⟨_, rfl⟩
  | some text =>
    have hr : Record.ofLine? line.number text = none := by simpa [Line.record?, htext] using h
    simp only [hr]
    exact ⟨_, rfl⟩

theorem counts_processLine (p : Processor σ) (line : Line) : Counts line p (p.processLine line) := by
  cases hrecord : line.record? with
  | none =>
    obtain ⟨log, hskip⟩ := processLine_of_no_record hrecord p
    exact hskip ▸ .skips rfl hrecord rfl rfl
  | some r => exact processLine_of_record hrecord p ▸ counts_processRecord hrecord p

/-! ### Runs -/

/-- Whatever ends a run over lines, the options stay. -/
theorem options_runLines (context : Context) (sink : Sink) (n : Nat) (before : Progress σ)
    (lines : List Line) :
    (runLines context sink n before lines).1.processor.options = before.processor.options := by
  induction lines generalizing n before with
  | nil => rfl
  | cons line lines ih =>
    have hline := (counts_processLine before.processor line).options
    rw [runLines]
    split
    · rfl
    · dsimp only
      split
      · exact (ih ..).trans hline
      · split
        · exact hline
        · exact (ih ..).trans hline

/-- What lines come to balances, from a run in progress on. -/
theorem balances_runLines (sink : Sink) (n : Nat) (before : Progress σ) (lines : List Line) :
    let done := runLines .never sink n before lines
    ∃ written taken counted,
      done.1.written.map Prod.fst = written.reverse ++ before.written.map Prod.fst ∧
      done.1.processor.stats = before.processor.stats + counted ∧
      Balances lines written (done.2.any RunError.isRefusal) taken counted := by
  induction lines generalizing n before with
  | nil => exact ⟨[], [], 0, rfl, rfl, .nil⟩
  | cons line lines ih =>
    have hcounts := counts_processLine before.processor line
    rw [runLines]
    cases hfacts : (before.processor.processLine line).facts with
    | none =>
      obtain ⟨s, hstats, hrecords, hlength, hemitted, hsettled⟩ := hcounts.of_none hfacts
      simp only [Context.calledOff_never, hfacts]
      obtain ⟨written, taken, counted, hwritten, htotal, hbalance⟩ := ih (n + 1)
        { before with
          processor := (before.processor.processLine line).processor
          log := (before.processor.processLine line).log.reverse ++ before.log }
      refine ⟨written, line :: taken, s + counted, hwritten, ?_,
        hbalance.cons [] s hrecords hlength hemitted hsettled (List.nil_sublist _)⟩
      rw [htotal, hstats, Stats.add_assoc]
    | some facts =>
      obtain ⟨r, hits, hrecord, hid, hstats⟩ := hcounts.of_some hfacts
      cases hsink : sink facts with
      | some why =>
        simp only [Context.calledOff_never, hfacts, hsink]
        exact ⟨[], [line], _, rfl, hstats, .refuse hrecord hits⟩
      | none =>
        simp only [Context.calledOff_never, hfacts, hsink]
        obtain ⟨written, taken, counted, hwritten, htotal, hbalance⟩ := ih (n + 1)
          ⟨(before.processor.processLine line).processor.count fun s =>
              { s with emitted := s.emitted + 1 },
            (facts, (before.processor.processLine line).processor.stats) :: before.written,
            (before.processor.processLine line).log.reverse ++ before.log⟩
        refine ⟨facts :: written, line :: taken, _, ?_, ?_, hbalance.cons [facts]
          { (0 : Stats) with records := 1, emitted := 1, cacheHits := hits }
          (by simp [hrecord]) rfl rfl rfl ?_⟩
        · rw [hwritten]
          simp
        · rw [htotal, count, hstats]
          ext <;> simp <;> omega
        · simp [hrecord, hid]

/-- What a run comes to balances. -/
theorem balances_run (p : Processor σ) (source : Source) (sink : Sink) :
    let done := p.run .never source sink
    ∃ taken counted, done.2.stats = p.stats + counted ∧
      Balances (source.lines p.options.limit) (done.1.written.map Prod.fst)
        (done.1.error.any RunError.isRefusal) taken counted := by
  obtain ⟨written, taken, counted, hwritten, hstats, hbalance⟩ :=
    balances_runLines sink 0 ⟨p, [], []⟩ (source.lines p.options.limit)
  refine ⟨taken, counted, hstats, ?_⟩
  have hlist : (p.run .never source sink).1.written.map Prod.fst = written := by
    rw [run, List.map_reverse, hwritten]
    simp
  rw [hlist, run, any_isRefusal_or]
  exact hbalance

end Processor
end KustoFacts
