import KustoFacts.Proofs.Records.Account
import KustoFacts.Proofs.Records.Pool
import Mathlib.Algebra.Order.Group.Multiset
import Mathlib.Data.List.TakeWhile
import Mathlib.Data.Multiset.Count

/-!
    Runs with workers come to the same as runs without. What a run with workers has done and has
    still to do is kept in a ledger: the counters, the facts written, what the records that are on
    their way stand for, and the lines not read yet. As long as nothing calls a run off, a step
    either leaves the ledger as it is or settles one line or one record in it, and what the ledger
    comes to in the end stays the same. The cache never holds anything but the facts of the text with
    the key, so that it does not matter which of two workers with the same text comes first. -/

namespace KustoFacts

/-! ### The ledger -/

/-- The state of a run by what lines and records stand for. -/
structure Ledger where
  stats : Stats
  written : Multiset Facts
  pending : Multiset (Option Facts)
  lines : List Line

/-- A sink that never refuses. -/
def Sink.willing : Sink := fun _ => none

namespace Ledger

/-- What happens to a ledger: nothing, or one line is taken, or one record is settled. -/
inductive Move (options : ExtractOptions) (a b : Ledger) : Prop where
  | stay (h : b = a)
  | skip (line : Line) (rest : List Line) (hlines : a.lines = line :: rest)
      (hrecord : line.record? = none)
      (h : b = { a with stats := a.stats + { (0 : Stats) with skipped := 1 }, lines := rest })
  | frame (line : Line) (rest : List Line) (r : Record) (hlines : a.lines = line :: rest)
      (hrecord : line.record? = some r)
      (h : b = { a with
        stats := a.stats + { (0 : Stats) with records := 1 }
        pending := r.facts? options ::ₘ a.pending
        lines := rest })
  | fail (rest : Multiset (Option Facts)) (hpending : a.pending = none ::ₘ rest)
      (h : b = { a with stats := a.stats + { (0 : Stats) with failed := 1 }, pending := rest })
  | emit (facts : Facts) (rest : Multiset (Option Facts))
      (hpending : a.pending = some facts ::ₘ rest)
      (h : b = { a with
        stats := a.stats + { (0 : Stats) with emitted := 1 }
        written := facts ::ₘ a.written
        pending := rest })

/-- The facts that will have been written in the end. -/
def results (options : ExtractOptions) (l : Ledger) : Multiset Facts :=
  l.written + l.pending.filterMap id + (factsOf options l.lines : Multiset Facts)

/-- The counters as they will be in the end. -/
def totals (options : ExtractOptions) (l : Ledger) : Stats :=
  l.stats +
    { (0 : Stats) with emitted := (l.pending.filterMap id).card, failed := l.pending.count none } +
    tally options .willing l.lines

end Ledger

variable {options : ExtractOptions}

theorem tally_willing_cons (line : Line) (lines : List Line) :
    tally options .willing (line :: lines) =
      line.stats options .willing + tally options .willing lines :=
  tally_cons_of_taken (by cases line.facts? options <;> rfl)

/-- Lines count as no hits. -/
theorem withoutHits_tally (lines : List Line) :
    (tally options .willing lines).withoutHits = tally options .willing lines := by
  induction lines with
  | nil => rfl
  | cons line lines ih =>
    have hline : (line.stats options .willing).withoutHits = line.stats options .willing := by
      unfold Line.stats Line.counted
      split
      · rfl
      · split <;> rfl
    rw [tally_willing_cons, Stats.withoutHits_add, hline, ih]

theorem takeWhile_willing (lines : List Line) :
    (factsOf options lines).takeWhile Sink.willing.takes = factsOf options lines :=
  List.takeWhile_eq_self_iff.2 fun _ _ => rfl

/-- A line without a record is skipped. -/
theorem Line.stats_skip {line : Line} (h : line.record? = none) :
    line.stats options .willing = { (0 : Stats) with skipped := 1 } := by
  have hfields := line.fields?_eq
  have hfacts := line.facts?_eq options
  rw [h] at hfields hfacts
  simp [Line.stats, Line.counted, hfields, hfacts]

/-- A line with a record counts as one, and its facts as emitted or failed. -/
theorem Line.stats_frame {line : Line} {r : Record} (h : line.record? = some r) :
    line.stats options .willing = { (0 : Stats) with
      records := 1
      emitted := (r.facts? options).toList.length
      failed := if (r.facts? options).isNone then 1 else 0 } := by
  have hfields := line.fields?_eq
  have hfacts := line.facts?_eq options
  rw [h] at hfields hfacts
  cases hr : r.facts? options with
  | none => simp [Line.stats, Line.counted, hfields, hfacts, hr]
  | some facts => simp [Line.stats, Line.counted, hfields, hfacts, hr, Sink.takes, Sink.willing]

theorem Line.facts?_of_record? {line : Line} {r : Record} (h : line.record? = some r) :
    line.facts? options = r.facts? options := by rw [line.facts?_eq, h]; rfl

namespace Ledger

variable {a b : Ledger}

theorem Move.results (h : Move options a b) : b.results options = a.results options := by
  cases h with
  | stay h => rw [h]
  | skip line rest hlines hrecord h =>
    have hfacts : line.facts? options = none := by rw [line.facts?_eq, hrecord]; rfl
    simp [h, Ledger.results, hlines, factsOf, hfacts]
  | frame line rest r hlines hrecord h =>
    have hfacts : line.facts? options = r.facts? options := Line.facts?_of_record? hrecord
    cases hr : r.facts? options with
    | none => simp [h, Ledger.results, hlines, factsOf, hfacts, hr]
    | some facts =>
      simp only [h, Ledger.results, hlines, factsOf, hfacts, hr, List.filterMap_cons]
      rw [Multiset.filterMap_cons_some id _ _ rfl, ← Multiset.cons_coe, Multiset.add_cons,
        Multiset.add_cons, Multiset.cons_add]
  | fail rest hpending h => simp [h, Ledger.results, hpending]
  | emit facts rest hpending h => simp [h, Ledger.results, hpending]

theorem Move.totals (h : Move options a b) : b.totals options = a.totals options := by
  cases h with
  | stay h => rw [h]
  | skip line rest hlines hrecord h =>
    simp only [h, Ledger.totals, hlines, tally_willing_cons, Line.stats_skip hrecord]
    ext <;> simp
    omega
  | frame line rest r hlines hrecord h =>
    simp only [h, Ledger.totals, hlines, tally_willing_cons, Line.stats_frame hrecord]
    cases r.facts? options with
    | none => ext <;> simp <;> omega
    | some facts => ext <;> simp <;> omega
  | fail rest hpending h =>
    ext <;> simp [h, Ledger.totals, hpending]
    omega
  | emit facts rest hpending h =>
    ext <;> simp [h, Ledger.totals, hpending]
    omega

/-- With nothing pending, a ledger comes to what was written and what the lines stand for. -/
theorem results_mk_zero (stats : Stats) (written : Multiset Facts) (lines : List Line) :
    (mk stats written 0 lines).results options =
      written + (factsOf options lines : Multiset Facts) := by
  simp [Ledger.results]

theorem totals_mk_zero (stats : Stats) (written : Multiset Facts) (lines : List Line) :
    (mk stats written 0 lines).totals options = stats + tally options .willing lines := rfl

end Ledger

/-! ### What a run has in hand -/

/-- What a worker's record stands for. -/
def Task.facts? (options : ExtractOptions) : Task → Option Facts
  | .given r => r.facts? options
  | .missed q => (extract options q.id q.text).outcome.toOption
  | .extracted _ facts | .ready facts => some facts

/-- The record that the reader has. -/
def Reader.record? : Reader → Option Record
  | .handing r => some r
  | _ => none

namespace Pool

variable {σ : Type} {s : Pool σ}

/-- What the records on their way stand for. -/
def pending (options : ExtractOptions) (s : Pool σ) : List (Option Facts) :=
  (s.writing.toList ++ s.sent).map some ++ s.tasks.map (Task.facts? options) ++
    s.reader.record?.toList.map (Record.facts? options)

/-- The ledger of a run. -/
def ledger (options : ExtractOptions) (s : Pool σ) : Ledger :=
  ⟨s.processor.stats.withoutHits, s.written, s.pending options, s.lines⟩

/-- Of what is pending, the record of any worker can be named first. -/
theorem pending_tasks (options : ExtractOptions) {before after : List Task} {task : Task}
    (h : s.tasks = before ++ task :: after) :
    (s.pending options : Multiset (Option Facts)) =
      task.facts? options ::ₘ ↑({ s with tasks := before ++ after }.pending options) := by
  rw [Multiset.cons_coe, Multiset.coe_eq_coe]
  simp only [pending, h, List.map_append, List.map_cons, List.append_assoc, List.cons_append]
  rw [← List.append_assoc, ← List.append_assoc, ← List.append_assoc, ← List.append_assoc]
  exact List.perm_middle

/-- A record that the reader takes is pending from then on. -/
theorem pending_handing (r : Record) (h : s.reader.record? = none) :
    ({ s with reader := .handing r }.pending options : Multiset (Option Facts)) =
      r.facts? options ::ₘ ↑(s.pending options) := by
  rw [Multiset.cons_coe, Multiset.coe_eq_coe]
  have hnone : s.reader.record?.toList.map (Record.facts? options) = [] := by rw [h]; rfl
  rw [pending, pending, hnone, List.append_nil]
  exact List.perm_append_singleton ..

/-- What the writer has in hand is pending. -/
theorem pending_writing {facts : Facts} (h : s.writing = some facts) :
    (s.pending options : Multiset (Option Facts)) =
      some facts ::ₘ ↑({ s with writing := none }.pending options) := by
  simp [pending, h]

/-- Facts that were sent last are still pending. -/
theorem pending_sent (options : ExtractOptions) (facts : Facts) :
    ({ s with sent := s.sent ++ [facts] }.pending options : Multiset (Option Facts)) =
      some facts ::ₘ ↑(s.pending options) := by
  rw [Multiset.cons_coe, Multiset.coe_eq_coe]
  simp only [pending, List.map_append, List.map_cons, List.map_nil, List.append_assoc,
    List.cons_append, List.nil_append]
  rw [← List.append_assoc, ← List.append_assoc]
  exact List.perm_middle

end Pool

/-! ### What workers may rely on -/

section Known

variable {σ : Type} [FactsCache σ] {k : Processor.Keyed}

/-- The query of a record is one of the texts that occur. -/
def Record.Known (k : Processor.Keyed) (r : Record) : Prop :=
  ∀ q, r.decode = .ok q → q.text ∈ k.texts

/-- A worker's query is one of the texts that occur, and the facts to be put into the cache are its
    facts. -/
def Task.Known (k : Processor.Keyed) : Task → Prop
  | .given r => r.Known k
  | .missed q => q.text ∈ k.texts
  | .extracted q facts =>
    q.text ∈ k.texts ∧ (extract k.options.extract q.id q.text).outcome = .ok facts
  | .ready _ => True

namespace Processor

/-- A processor whose cache holds nothing but the facts of the texts that occur. -/
structure Trusted (k : Keyed) (p : Processor σ) : Prop where
  options : p.options = k.options
  key : p.key = k.key
  holds : ∀ cache, p.cache = some cache → k.Holds cache

variable {p p' : Processor σ} {q : Query} {facts : Facts}

theorem Beside.trusted (h : Beside k p p') : Trusted k p := ⟨h.options, h.key, h.holds⟩

theorem Trusted.keep (h : Trusted k p) (htext : q.text ∈ k.texts)
    (hfacts : (extract k.options.extract q.id q.text).outcome = .ok facts) :
    Trusted k (p.keep q facts) := by
  refine ⟨h.options, h.key, ?_⟩
  intro cache hcache
  obtain ⟨before, hbefore, rfl⟩ := Option.map_eq_some_iff.1 hcache
  rw [h.key]
  exact (h.holds before hbefore).add htext (outcome_withId hfacts [])

/-- The cache answers with the facts of the query, or not at all. -/
theorem Trusted.consult (h : Trusted k p) (hlast : FactsCache.ReturnsLast σ)
    (htext : q.text ∈ k.texts) :
    Trusted k (p.consult q).2 ∧ (p.consult q).2.stats.withoutHits = p.stats.withoutHits ∧
      ∀ facts, (p.consult q).1 = some facts →
        (extract k.options.extract q.id q.text).outcome = .ok facts := by
  rw [Processor.consult]
  cases hcache : p.cache with
  | none => exact ⟨h, rfl, by simp⟩
  | some cache =>
    have hholds := h.holds cache hcache
    have hkept : ∀ after, (FactsCache.get cache (p.key q.text)).2 = after → k.Holds after :=
      fun after hafter => hafter ▸ hholds.get _
    dsimp only
    split
    next found after hget =>
      refine ⟨⟨h.options, h.key, ?_⟩, rfl, ?_⟩
      · intro cache' hcache'
        obtain rfl := Option.some.inj hcache'
        exact hkept after (by rw [hget])
      · intro facts hfacts
        obtain rfl := Option.some.inj hfacts
        rw [h.key] at hget
        exact outcome_withId (hholds.hit hlast htext (by rw [hget])) q.id
    next after hget =>
      refine ⟨⟨h.options, h.key, ?_⟩, rfl, by simp⟩
      intro cache' hcache'
      obtain rfl := Option.some.inj hcache'
      exact hkept after (by rw [hget])

end Processor

/-- What a worker does by itself: it comes closer to what its record stands for, or its record fails
    and stood for nothing. -/
inductive Task.Goes (k : Processor.Keyed) (task : Task) (before after : Stats) :
    Option Task → Prop where
  | on (next : Task) (hknown : next.Known k)
      (hfacts : next.facts? k.options.extract = task.facts? k.options.extract)
      (hstats : after = before) : Goes k task before after (some next)
  | fails (hfacts : task.facts? k.options.extract = none)
      (hstats : after = before + { (0 : Stats) with failed := 1 }) : Goes k task before after none

theorem Processor.Trusted.work {p p' : Processor σ} {task : Task} {next : Option Task}
    (h : p.Trusted k) (hlast : FactsCache.ReturnsLast σ) (hknown : task.Known k)
    (hwork : task.work p = some (p', next)) :
    p'.Trusted k ∧ task.Goes k p.stats.withoutHits p'.stats.withoutHits next := by
  cases task with
  | given r =>
    cases hdecode : r.decode with
    | error e =>
      simp only [Task.work, hdecode, Option.some.injEq, Prod.mk.injEq] at hwork
      obtain ⟨rfl, rfl⟩ := hwork
      refine ⟨⟨h.options, h.key, h.holds⟩, .fails ?_ rfl⟩
      simp [Task.facts?, Record.facts?, hdecode, Except.toOption]
    | ok q =>
      have htext := hknown q hdecode
      have hfacts : (Task.given r).facts? k.options.extract =
          (extract k.options.extract q.id q.text).outcome.toOption := by
        simp [Task.facts?, Record.facts?, hdecode, Except.toOption]
      obtain ⟨htrusted, hstats, hfound⟩ := h.consult hlast htext
      simp only [Task.work, hdecode] at hwork
      split at hwork
      next facts after hconsult =>
        rw [hconsult] at htrusted hstats hfound
        cases hwork
        refine ⟨htrusted, .on _ trivial ?_ hstats⟩
        rw [hfacts, hfound facts rfl]
        rfl
      next after hconsult =>
        rw [hconsult] at htrusted hstats
        cases hwork
        exact ⟨htrusted, .on _ htext hfacts.symm hstats⟩
  | missed q =>
    cases hout : (extract k.options.extract q.id q.text).outcome with
    | error e =>
      simp only [Task.work, h.options, hout, Option.some.injEq, Prod.mk.injEq] at hwork
      obtain ⟨rfl, rfl⟩ := hwork
      refine ⟨⟨rfl, h.key, h.holds⟩, .fails ?_ rfl⟩
      simp [Task.facts?, hout, Except.toOption]
    | ok facts =>
      simp only [Task.work, h.options, hout, Option.some.injEq, Prod.mk.injEq] at hwork
      obtain ⟨rfl, rfl⟩ := hwork
      refine ⟨⟨rfl, h.key, h.holds⟩, .on _ ⟨hknown, hout⟩ ?_ rfl⟩
      simp [Task.facts?, hout, Except.toOption]
  | extracted q facts =>
    cases hwork
    exact ⟨h.keep hknown.1 hknown.2, .on _ trivial rfl rfl⟩
  | ready facts => cases hwork

end Known

/-! ### Runs that nothing calls off -/

namespace Pool

variable {σ : Type} [FactsCache σ] {k : Processor.Keyed} {run : PoolRun} {s t : Pool σ}

/-- A run over a source that ends as it should, with a sink that never refuses and a context that
    does not end. -/
structure Undisturbed (run : PoolRun) : Prop where
  source : run.source.ending = .complete
  sink : run.sink = .willing
  callOff : run.callOff = none

/-- What is over by where the reader stands: reading, then working, then writing. -/
def InPhase (s : Pool σ) : Prop :=
  match s.reader with
  | .asking | .reading | .handing _ => True
  | .waiting => s.lines = []
  | .closed => s.lines = [] ∧ s.tasks = []
  | .returned error =>
    error = none ∧ s.lines = [] ∧ s.tasks = [] ∧ s.sent = [] ∧ s.writing = none

/-- A run in which nothing has gone wrong. -/
structure Sound (k : Processor.Keyed) (s : Pool σ) : Prop where
  trusted : s.processor.Trusted k
  lines : ∀ line ∈ s.lines, ∀ r, line.record? = some r → r.Known k
  record : ∀ r, s.reader.record? = some r → r.Known k
  tasks : ∀ task ∈ s.tasks, task.Known k
  ended : s.ended = none
  unread : s.unread = none
  refused : s.refused = none
  unsent : s.unsent = none
  phase : s.InPhase

section Phase

omit [FactsCache σ]

/-- While a worker has a record, the reader has not come further than to wait. -/
theorem InPhase.of_tasks_ne_nil (h : s.InPhase) (htasks : s.tasks ≠ [])
    (hreader : t.reader = s.reader) (hlines : t.lines = s.lines) : t.InPhase := by
  unfold InPhase at h ⊢
  rw [hreader, hlines]
  cases hs : s.reader with
  | asking | reading | handing r => trivial
  | waiting => rwa [hs] at h
  | closed => rw [hs] at h; exact absurd h.2 htasks
  | returned error => rw [hs] at h; exact absurd h.2.2.1 htasks

/-- While there is something to write, the run has not returned. -/
theorem InPhase.of_unwritten (h : s.InPhase) (hleft : ¬(s.sent = [] ∧ s.writing = none))
    (hreader : t.reader = s.reader) (hlines : t.lines = s.lines) (htasks : t.tasks = s.tasks) :
    t.InPhase := by
  unfold InPhase at h ⊢
  rw [hreader, hlines, htasks]
  cases hs : s.reader with
  | asking | reading | handing r => trivial
  | waiting | closed => rwa [hs] at h
  | returned error => rw [hs] at h; exact absurd h.2.2.2 hleft

end Phase

/-- A worker that goes on with its record keeps the run sound. The ledger stays as it is, or counts
    the record as failed. -/
theorem Sound.work (h : Sound k s) (hlast : FactsCache.ReturnsLast σ) {before after : List Task}
    {task : Task} {p : Processor σ} {next : Option Task}
    (htasks : s.tasks = before ++ task :: after) (hwork : task.work s.processor = some (p, next)) :
    Sound k { s with processor := p, tasks := before ++ next.toList ++ after } ∧
      Ledger.Move k.options.extract (s.ledger k.options.extract)
        ({ s with processor := p, tasks := before ++ next.toList ++ after }.ledger
          k.options.extract) := by
  have hbusy : s.tasks ≠ [] := by simp [htasks]
  have hpending := pending_tasks k.options.extract htasks
  have hknown := h.tasks
  rw [htasks, List.forall_mem_append, List.forall_mem_cons] at hknown
  obtain ⟨hbefore, htask, hafter⟩ := hknown
  obtain ⟨htrusted, hgoes⟩ := h.trusted.work hlast htask hwork
  cases hgoes with
  | on next hknown hfacts hstats =>
    have htasks' : before ++ (some next).toList ++ after = before ++ next :: after := by simp
    rw [htasks']
    refine ⟨{ h with
      trusted := htrusted
      tasks := List.forall_mem_append.2 ⟨hbefore, List.forall_mem_cons.2 ⟨hknown, hafter⟩⟩
      phase := h.phase.of_tasks_ne_nil hbusy rfl rfl }, .stay ?_⟩
    have hpending' := pending_tasks k.options.extract
      (s := { s with processor := p, tasks := before ++ next :: after }) rfl
    rw [hfacts] at hpending'
    exact congrArg₂ (Ledger.mk · _ · _) hstats (hpending'.trans hpending.symm)
  | fails hfacts hstats =>
    rw [hfacts] at hpending
    refine ⟨{ h with
      trusted := htrusted
      tasks := by simpa using List.forall_mem_append.2 ⟨hbefore, hafter⟩
      phase := h.phase.of_tasks_ne_nil hbusy rfl rfl }, .fail _ hpending ?_⟩
    simp only [Option.toList_none, List.append_nil]
    exact congrArg (Ledger.mk · _ _ _) hstats

/-- A worker that sends its facts leaves the ledger as it is. -/
theorem Sound.send (h : Sound k s) {before after : List Task} {facts : Facts}
    (htasks : s.tasks = before ++ .ready facts :: after) :
    Sound k { s with tasks := before ++ after, sent := s.sent ++ [facts] } ∧
      Ledger.Move k.options.extract (s.ledger k.options.extract)
        ({ s with tasks := before ++ after, sent := s.sent ++ [facts] }.ledger
          k.options.extract) := by
  have hknown := h.tasks
  rw [htasks, List.forall_mem_append, List.forall_mem_cons] at hknown
  obtain ⟨hbefore, -, hafter⟩ := hknown
  have hpending := pending_tasks k.options.extract htasks
  refine ⟨{ h with
    tasks := List.forall_mem_append.2 ⟨hbefore, hafter⟩
    phase := h.phase.of_tasks_ne_nil (by simp [htasks]) rfl rfl }, .stay ?_⟩
  have hsent := pending_sent k.options.extract
    (s := { s with tasks := before ++ after }) facts
  exact congrArg (Ledger.mk _ _ · _) (hsent.trans hpending.symm)

/-- A step of a run that nothing calls off keeps it sound and settles at most one line or one
    record. -/
theorem Sound.step (h : Sound k s) (hrun : Undisturbed run) (hlast : FactsCache.ReturnsLast σ)
    (hstep : Step run s t) :
    Sound k t ∧ Ledger.Move k.options.extract (s.ledger k.options.extract)
      (t.ledger k.options.extract) := by
  cases hstep with
  | ask hreader =>
    rw [if_pos (by rw [h.ended]; rfl)]
    refine ⟨{ h with record := by simp [Reader.record?], phase := trivial }, .stay ?_⟩
    simp only [ledger, pending, hreader, Reader.record?]
  | skip line rest hreader hlines hrecord =>
    refine ⟨{ h with
      trusted := ⟨h.trusted.options, h.trusted.key, h.trusted.holds⟩
      lines := fun line' hline => h.lines line' (hlines ▸ List.mem_cons_of_mem _ hline)
      record := by simp [Reader.record?]
      phase := trivial }, .skip line rest hlines hrecord ?_⟩
    simp only [ledger, pending, hreader, Reader.record?]
    rfl
  | frame line rest r hreader hlines hrecord =>
    have hknown := h.lines line (hlines ▸ List.mem_cons_self) r hrecord
    refine ⟨{ h with
      trusted := ⟨h.trusted.options, h.trusted.key, h.trusted.holds⟩
      lines := fun line' hline => h.lines line' (hlines ▸ List.mem_cons_of_mem _ hline)
      record := by simpa [Reader.record?] using hknown
      phase := trivial }, .frame line rest r hlines hrecord ?_⟩
    exact congrArg (Ledger.mk _ _ · _) (pending_handing r (by rw [hreader]; rfl))
  | exhaust hreader hlines =>
    refine ⟨{ h with
      record := by simp [Reader.record?]
      unread := by rw [hrun.source]; rfl
      phase := hlines }, .stay ?_⟩
    simp only [ledger, pending, hreader, Reader.record?]
  | hand r hreader hfree =>
    refine ⟨{ h with
      record := by simp [Reader.record?]
      tasks := by
        intro task htask
        rcases List.mem_append.1 htask with htask | htask
        · exact h.tasks task htask
        · obtain rfl := List.mem_singleton.1 htask
          exact h.record r (by rw [hreader]; rfl)
      phase := trivial }, .stay ?_⟩
    simp [ledger, pending, hreader, Reader.record?, Task.facts?]
  | work before task after p next htasks hwork => exact h.work hlast htasks hwork
  | send before facts after htasks hroom => exact h.send htasks
  | receive facts rest hwriting hsent =>
    refine ⟨{ h with phase := h.phase.of_unwritten (by simp [hsent]) rfl rfl rfl }, .stay ?_⟩
    simp [ledger, pending, hwriting, hsent]
  | write facts hwriting hrefused hsink =>
    refine ⟨{ h with
      trusted := ⟨h.trusted.options, h.trusted.key, h.trusted.holds⟩
      phase := h.phase.of_unwritten (by simp [hwriting]) rfl rfl rfl },
      .emit facts _ (pending_writing hwriting) ?_⟩
    have hwritten : (s.written ++ [facts]).Perm (facts :: s.written) :=
      List.perm_append_singleton ..
    exact congrArg (Ledger.mk _ · _ _) (Multiset.coe_eq_coe.2 hwritten)
  | refuse facts why hwriting hrefused hsink => simp [hrun.sink, Sink.willing] at hsink
  | discard facts hwriting hrefused => simp [h.refused] at hrefused
  | callOff why hcallOff hended => simp [hrun.callOff] at hcallOff
  | giveUp before q after htasks hended => simp [h.ended] at hended
  | drop before facts after why htasks hended => simp [h.ended] at hended
  | close hreader htasks =>
    have hlines : s.lines = [] := by simpa [InPhase, hreader] using h.phase
    refine ⟨{ h with record := by simp [Reader.record?], phase := ⟨hlines, htasks⟩ }, .stay ?_⟩
    simp only [ledger, pending, hreader, Reader.record?]
  | finish hreader hsent hwriting =>
    have hdone : s.lines = [] ∧ s.tasks = [] := by simpa [InPhase, hreader] using h.phase
    have hverdict : s.verdict = none := by simp [verdict, h.ended, h.unread, h.refused, h.unsent]
    refine ⟨{ h with
      record := by simp [Reader.record?]
      phase := ⟨hverdict, hdone.1, hdone.2, hsent, hwriting⟩ }, .stay ?_⟩
    simp only [ledger, pending, hreader, Reader.record?]

/-- What a run that nothing calls off comes to is settled from its first step on. -/
theorem Sound.steps (h : Sound k s) (hrun : Undisturbed run) (hlast : FactsCache.ReturnsLast σ)
    (hsteps : Relation.ReflTransGen (Step run) s t) :
    Sound k t ∧
      (t.ledger k.options.extract).results k.options.extract =
        (s.ledger k.options.extract).results k.options.extract ∧
      (t.ledger k.options.extract).totals k.options.extract =
        (s.ledger k.options.extract).totals k.options.extract := by
  induction hsteps with
  | refl => exact ⟨h, rfl, rfl⟩
  | tail _ hstep ih =>
    obtain ⟨hsound, hresults, htotals⟩ := ih
    obtain ⟨hnext, hmove⟩ := hsound.step hrun hlast hstep
    exact ⟨hnext, hmove.results.trans hresults, hmove.totals.trans htotals⟩

/-- A run with workers before its first step is sound. -/
theorem sound_start {p : Processor σ} (hp : p.Trusted k)
    (htexts : ∀ text ∈ (Job.mk .never run.source run.sink).texts k.options.limit, text ∈ k.texts) :
    Sound k (start run p) := by
  refine ⟨hp, ?_, by simp [start, Reader.record?], by simp [start], rfl, rfl, rfl, rfl, trivial⟩
  intro line hline r hrecord q hdecode
  rw [start, hp.options] at hline
  refine htexts _ (List.mem_filterMap.2 ⟨line, hline, ?_⟩)
  obtain ⟨text, htext, hr⟩ := Option.bind_eq_some_iff.1 hrecord
  simp [Line.query?, htext, hr, hdecode, Except.toOption]

omit [FactsCache σ] in
/-- At its start a run has all its lines before it. -/
theorem ledger_start (options : ExtractOptions) (run : PoolRun) (p : Processor σ) :
    (start run p).ledger options =
      ⟨p.stats.withoutHits, 0, 0, run.source.lines p.options.limit⟩ := rfl

/-- Once a run has returned, everything is settled. -/
theorem Sound.ledger_returned (h : Sound k s) {error : Option RunError}
    (hreturned : s.reader = .returned error) :
    error = none ∧
      s.ledger k.options.extract = ⟨s.processor.stats.withoutHits, s.written, 0, []⟩ := by
  have hphase := h.phase
  rw [InPhase, hreturned] at hphase
  obtain ⟨herror, hlines, htasks, hsent, hwriting⟩ := hphase
  refine ⟨herror, ?_⟩
  simp [ledger, pending, hlines, htasks, hsent, hwriting, hreturned, Reader.record?]

/-- Runs with workers agree with runs without, whatever the number of workers and the size of the
    cache, if nothing calls them off, the source ends as it should, the sink never refuses, the cache
    returns only what was put under a key last, and no two of the texts that occur have the same
    key. In whatever order the steps are taken, what has been written is always a part of what a run
    without workers and without a cache writes. Once the run has returned, it has written just the
    same facts, maybe in another order, has counted the same, and reports no error. -/
theorem run_agrees (hlast : FactsCache.ReturnsLast σ) (key : Bytes → UInt64)
    (options : ProcessorOptions) (size workers : Nat) (pieces : List Bytes)
    (hkey : Set.InjOn key
      {text | text ∈ (Job.mk .never ⟨pieces, .complete⟩ .willing).texts options.limit}) :
    ∃ pooled plain : Processor σ,
      Processor.withCache σ key options size = .ok pooled ∧
        Processor.withCache σ key options 0 = .ok plain ∧
        let run : PoolRun := ⟨workers, ⟨pieces, .complete⟩, .willing, none⟩
        let alone := plain.run .never run.source run.sink
        ∀ s, Relation.ReflTransGen (Step run) (start run pooled) s →
          (s.written : Multiset Facts) ≤ alone.1.written.map Prod.fst ∧
            ∀ error, s.reader = .returned error →
              error = none ∧ (s.written : Multiset Facts) = alone.1.written.map Prod.fst ∧
                s.processor.stats.withoutHits = alone.2.stats.withoutHits := by
  let source : Source := ⟨pieces, .complete⟩
  let k : Processor.Keyed := {
    options := options
    key := key
    texts := (Job.mk .never source .willing).texts options.limit
    distinct := fun a ha b hb => hkey ha hb }
  obtain ⟨pooled, plain, hpooled, hplain, hbeside⟩ := Processor.beside_new (σ := σ) k size
  refine ⟨pooled, plain, hpooled, hplain, ?_⟩
  intro run alone s hsteps
  have haccounts : Processor.Accounts options source .willing plain.stats alone :=
    Processor.Plain.accounts ⟨hbeside.options', hbeside.plain⟩ source .willing
  obtain ⟨hwritten, -, hstats⟩ := haccounts
  rw [takeWhile_willing] at hwritten
  have hsound : Sound k (start run pooled) := sound_start hbeside.trusted fun _ htext => htext
  obtain ⟨hs, hresults, htotals⟩ := hsound.steps ⟨rfl, rfl, rfl⟩ hlast hsteps
  have hoptions : pooled.options = options := hbeside.options
  have hledger := ledger_start options.extract run pooled
  rw [hoptions] at hledger
  have hresults : (s.ledger options.extract).results options.extract =
      (alone.1.written.map Prod.fst : Multiset Facts) := by
    rw [hresults, hledger, Ledger.results_mk_zero, zero_add, ← hwritten]
  have htotals : (s.ledger options.extract).totals options.extract =
      alone.2.stats.withoutHits := by
    rw [htotals, hledger, Ledger.totals_mk_zero, hbeside.stats, hstats, Stats.withoutHits_add,
      withoutHits_tally]
  refine ⟨?_, ?_⟩
  · rw [← hresults, Ledger.results, add_assoc]
    exact Multiset.le_add_right ..
  · intro error hreturned
    obtain ⟨herror, hledger⟩ := hs.ledger_returned hreturned
    refine ⟨herror, ?_, ?_⟩
    · rw [← hresults, hledger, Ledger.results_mk_zero]
      exact (add_zero _).symm
    · rw [← htotals, hledger, Ledger.totals_mk_zero]
      exact (Stats.add_zero _).symm

/-- Two workers, a cache, and three records, of which two have the same text: there is a run that
    returns, and it agrees with the one without workers. -/
theorem run_agrees_same_text :
    let run : PoolRun :=
      ⟨2, ⟨[bytes "a,VA==\nb,VQ==\nc,VA", bytes "==\nd"], .complete⟩, .willing, none⟩
    Set.InjOn digest {text | text ∈
        (Job.mk .never run.source run.sink).texts (ProcessorOptions.limit ⟨⟨.empty, true⟩, 0⟩)} ∧
      ∃ pooled plain : Processor, Processor.new ⟨⟨.empty, true⟩, 0⟩ 1 = .ok pooled ∧
        Processor.new ⟨⟨.empty, true⟩, 0⟩ 0 = .ok plain ∧
          ∃ s, Relation.ReflTransGen (Step run) (start run pooled) s ∧ s.reader = .returned none ∧
            (s.written : Multiset Facts) =
              (plain.run .never run.source run.sink).1.written.map Prod.fst := by
  intro run
  have htexts : (Job.mk .never run.source run.sink).texts
      (ProcessorOptions.limit ⟨⟨.empty, true⟩, 0⟩) =
      [bytes "T", bytes "U", bytes "T"] := by decide +kernel
  have hkey : Set.InjOn digest {text | text ∈
      (Job.mk .never run.source run.sink).texts (ProcessorOptions.limit ⟨⟨.empty, true⟩, 0⟩)} :=
    injOn_texts htexts (by decide)
  refine ⟨hkey, ?_⟩
  obtain ⟨pooled, plain, hpooled, hplain, hagrees⟩ :=
    run_agrees Cache.returnsLast digest ⟨⟨.empty, true⟩, 0⟩ 1 2 _ hkey
  have hworkers : 0 < run.workers := by decide
  obtain ⟨s, error, hsteps, hreturned⟩ := exists_returned hworkers (start run pooled)
  obtain ⟨rfl, hwritten, -⟩ := (hagrees s hsteps).2 error hreturned
  exact ⟨pooled, plain, hpooled, hplain, s, hsteps, hreturned, hwritten⟩

end Pool
end KustoFacts
