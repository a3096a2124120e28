import KustoFacts.Facts.Extract
import KustoFacts.Proofs.Facts.Surveyed
import KustoFacts.Proofs.Query.Parsed

/-!
    How an extraction ends. It yields facts, or it refuses the text with its faults, or it breaks off
    because the text has no tokens, and each of the three leaves its own records of states. Nothing
    breaks off once a tree is there: every tree that is read can be surveyed. -/

namespace KustoFacts
namespace Extraction

/-- The records of an extraction without those of join kinds outside of the vocabulary. -/
def states (e : Extraction) : List LogRecord :=
  e.trace.filter (·.message ≠ bytes "unknown join kind")

/-- Facts about the query were found. -/
def Succeeds (id : Bytes) (e : Extraction) : Prop :=
  ∃ facts, e.outcome = .ok facts ∧ facts.id = id ∧
    e.states = [stateRecord id .parsing [], stateRecord id .walking [], stateRecord id .done []]

/-- The text has faults, and all of them are told. -/
def Refuses (id : Bytes) (e : Extraction) : Prop :=
  ∃ diagnostics, diagnostics ≠ [] ∧ e.outcome = .error (.invalid id diagnostics) ∧
    e.states = [stateRecord id .parsing [],
      stateRecord id .syntaxError [("diagnostics", .int diagnostics.length)]]

/-- The extraction did not get as far as to a tree. -/
def BreaksOff (id : Bytes) (e : Extraction) : Prop :=
  ∃ cause, e.outcome = .error (.failed id cause) ∧
    e.states = [stateRecord id .parsing [],
      stateRecord id .runtimeError [("err", .text (ExtractError.failed id cause).message)]]

variable {id : Bytes} {e : Extraction}

theorem Succeeds.only (h : e.Succeeds id) : ¬e.Refuses id ∧ ¬e.BreaksOff id := by
  obtain ⟨facts, h, -⟩ := h
  constructor
  · rintro ⟨diagnostics, -, h', -⟩
    rw [h] at h'
    cases h'
  · rintro ⟨cause, h', -⟩
    rw [h] at h'
    cases h'

theorem Refuses.not_breaksOff (h : e.Refuses id) : ¬e.BreaksOff id := by
  obtain ⟨diagnostics, -, h, -⟩ := h
  rintro ⟨cause, h', -⟩
  rw [h] at h'
  cases h'

end Extraction

variable {catalog : TableNames} {normalize : Bool} {id text : Bytes} {p : Parsed}

/-! ### Records -/

theorem message_stateRecord (id : Bytes) (state : ExtractState) (more : List (String × LogValue)) :
    (stateRecord id state more).message ≠ bytes "unknown join kind" := by
  have hne : bytes "extraction state" ≠ bytes "unknown join kind" := by decide
  exact hne

theorem level_kindRecords (normalize : Bool) (root : Node) :
    ∀ record ∈ kindRecords normalize root, record.level = LogLevel.debug := by
  intro record hrecord
  unfold kindRecords at hrecord
  split at hrecord
  · obtain ⟨kind, -, rfl⟩ := List.mem_map.1 hrecord
    rfl
  · cases hrecord

/-- An extraction leaves only records for following its steps. -/
theorem level_trace (options : ExtractOptions) (id text : Bytes) :
    ∀ record ∈ (extract options id text).trace, record.level = LogLevel.debug := by
  rw [extract]
  cases parse options.catalog text with
  | error o => exact List.forall_mem_cons.2 ⟨rfl, List.forall_mem_singleton.2 rfl⟩
  | ok p =>
    have hwalking : ∀ last : LogRecord, last.level = LogLevel.debug →
        ∀ record ∈ stateRecord id .parsing [] :: stateRecord id .walking [] ::
          kindRecords options.normalize p.root ++ [last], record.level = LogLevel.debug := by
      intro last hlast
      refine List.forall_mem_append.2 ⟨?_, List.forall_mem_singleton.2 hlast⟩
      exact List.forall_mem_cons.2 ⟨rfl, List.forall_mem_cons.2 ⟨rfl, level_kindRecords _ _⟩⟩
    simp only [Parsed.extract]
    split
    · split
      · exact hwalking _ rfl
      · exact hwalking _ rfl
    · exact List.forall_mem_cons.2 ⟨rfl, List.forall_mem_singleton.2 rfl⟩

theorem filter_kindRecords (normalize : Bool) (root : Node) :
    (kindRecords normalize root).filter (·.message ≠ bytes "unknown join kind") = [] := by
  refine List.filter_eq_nil_iff.2 ?_
  intro record hrecord
  unfold kindRecords at hrecord
  split at hrecord
  · obtain ⟨kind, -, rfl⟩ := List.mem_map.1 hrecord
    simp [LogRecord.debug]
  · cases hrecord

/-! ### The three ends -/

/-- The tree of a parsed text has facts. -/
theorem survey_parse (h : parse catalog text = .ok p) (normalize : Bool) (id : Bytes) :
    survey normalize id p.root = .ok (.ofFindings id ((p.root.inSlot .none).findings normalize)) :=
  survey_wellFormed (wellFormed_parse h) normalize id

/-- What a parsed text without faults yields. -/
theorem extract_parsed (h : parse catalog text = .ok p) (hp : p.diagnostics = []) :
    p.extract normalize id =
      ⟨.ok (.ofFindings id ((p.root.inSlot .none).findings normalize)),
        stateRecord id .parsing [] :: stateRecord id .walking [] :: kindRecords normalize p.root ++
          [stateRecord id .done []]⟩ := by
  rw [Parsed.extract]
  simp only [hp, survey_parse h]

theorem outcome_parsed {options : ExtractOptions} (h : parse options.catalog text = .ok p)
    (hp : p.diagnostics = []) : (extract options id text).outcome =
      .ok (.ofFindings id ((p.root.inSlot .none).findings options.normalize)) := by
  rw [extract, h]
  simp only [extract_parsed h hp]

theorem succeeds_parsed (h : parse catalog text = .ok p) (hp : p.diagnostics = []) :
    (p.extract normalize id).Succeeds id := by
  rw [extract_parsed h hp]
  refine ⟨_, rfl, Facts.id_ofFindings _ _, ?_⟩
  simp only [Extraction.states, List.cons_append, List.filter_cons, List.filter_append,
    filter_kindRecords, message_stateRecord, ne_eq, not_false_eq_true, decide_true, if_true,
    List.nil_append, List.filter_nil]

theorem refuses_parsed (hp : p.diagnostics ≠ []) : (p.extract normalize id).Refuses id := by
  rw [Parsed.extract]
  split
  · exact absurd ‹_› hp
  · exact ⟨p.diagnostics, hp, rfl, by simp [Extraction.states, message_stateRecord]⟩

/-- What a parsed text with faults yields. -/
theorem outcome_refused {options : ExtractOptions} (h : parse options.catalog text = .ok p)
    (hp : p.diagnostics ≠ []) :
    (extract options id text).outcome = .error (.invalid id p.diagnostics) := by
  rw [extract, h]
  simp only [Parsed.extract]

/-- Only a parsed text without faults yields facts. -/
theorem parse_of_outcome {options : ExtractOptions} {facts : Facts}
    (h : (extract options id text).outcome = .ok facts) :
    ∃ p, parse options.catalog text = .ok p ∧ p.diagnostics = [] ∧
      facts = .ofFindings id ((p.root.inSlot .none).findings options.normalize) := by
  rw [extract] at h
  cases hparse : parse options.catalog text with
  | error o =>
    rw [hparse] at h
    cases h
  | ok p =>
    simp only [hparse] at h
    by_cases hp : p.diagnostics = []
    · rw [extract_parsed hparse hp] at h
      cases h
      exact ⟨p, rfl, hp, rfl⟩
    · have hrefuses : (p.extract options.normalize id).Refuses id := refuses_parsed hp
      obtain ⟨diagnostics, -, hout, -⟩ := hrefuses
      rw [hout] at h
      cases h

/-- The facts of a text are read off its tree, if it has no faults. -/
theorem toOption_outcome (options : ExtractOptions) (id text : Bytes) :
    (extract options id text).outcome.toOption =
      (cleanRoot? options.catalog text).map fun root =>
        .ofFindings id ((root.inSlot .none).findings options.normalize) := by
  ext facts
  have houtcome : (extract options id text).outcome.toOption = some facts ↔
      (extract options id text).outcome = .ok facts := by
    cases (extract options id text).outcome <;> simp [Except.toOption]
  rw [houtcome, Option.map_eq_some_iff]
  constructor
  · intro h
    obtain ⟨p, hparse, hclean, rfl⟩ := parse_of_outcome h
    exact ⟨p.root, cleanRoot?_eq_some.2 ⟨p, hparse, hclean, rfl⟩, rfl⟩
  · rintro ⟨root, hroot, rfl⟩
    obtain ⟨p, hparse, hclean, rfl⟩ := cleanRoot?_eq_some.1 hroot
    exact outcome_parsed hparse hclean

/-- What is found in a text does not depend on the id: the facts under one id are those under
    another, copied. -/
theorem outcome_withId {options : ExtractOptions} {facts : Facts}
    (h : (extract options id text).outcome = .ok facts) (id' : Bytes) :
    (extract options id' text).outcome = .ok (facts.withId id') := by
  obtain ⟨p, hparse, hp, rfl⟩ := parse_of_outcome h
  rw [outcome_parsed hparse hp, Facts.withId_ofFindings]

/-- Every extraction that is not called off ends in exactly one of three ways: with facts exactly
    if the text has no faults, by breaking off exactly if the text has no tokens, and else by
    refusing the text. Whatever tree was read is well formed and has facts, so that no extraction
    breaks off after its tree was read. -/
theorem extract_ends (options : ExtractOptions) (id text : Bytes) :
    let e := extractUnless none options id text
    (e.Succeeds id ∧ ¬e.Refuses id ∧ ¬e.BreaksOff id ∨
      ¬e.Succeeds id ∧ e.Refuses id ∧ ¬e.BreaksOff id ∨
      ¬e.Succeeds id ∧ ¬e.Refuses id ∧ e.BreaksOff id) ∧
    (e.Succeeds id ↔ ∃ p, parse options.catalog text = .ok p ∧ p.diagnostics = []) ∧
    (e.BreaksOff id ↔ ∃ o, tokenize (Parsed.withoutMark text) = .error o) ∧
    ∀ p, parse options.catalog text = .ok p →
      p.root.WellFormed p.text ∧
        ∀ normalize id', ∃ facts, survey normalize id' p.root = .ok facts := by
  intro e
  have hsurvey : ∀ p, parse options.catalog text = .ok p → p.root.WellFormed p.text ∧
      ∀ normalize id', ∃ facts, survey normalize id' p.root = .ok facts := by
    intro p hp
    exact ⟨wellFormed_parse hp, fun normalize id' => ⟨_, survey_parse hp normalize id'⟩⟩
  rcases hread : tokenize (Parsed.withoutMark text) with o | read
  · have hparse : parse options.catalog text = .error o := by rw [parse, hread]; rfl
    have hbreaks : e.BreaksOff id := by
      refine ⟨.overrun o, ?_, ?_⟩ <;>
        simp [e, extractUnless, extract, hparse, Extraction.states, message_stateRecord]
    have hnot : ¬e.Succeeds id := fun h => h.only.2 hbreaks
    refine ⟨.inr (.inr ⟨hnot, fun h => h.not_breaksOff hbreaks, hbreaks⟩), ?_, ?_, hsurvey⟩
    · refine ⟨fun h => absurd h hnot, ?_⟩
      rintro ⟨p, hp, -⟩
      rw [hparse] at hp
      cases hp
    · exact ⟨fun _ => ⟨o, rfl⟩, fun _ => hbreaks⟩
  · have hnone : ¬∃ o, (Except.ok read : Except Overrun Tokens) = .error o := by
      rintro ⟨o, ho⟩
      cases ho
    obtain ⟨p, hp⟩ : ∃ p, parse options.catalog text = .ok p := by rw [parse, hread]; exact ⟨_, rfl⟩
    have he : e = p.extract options.normalize id := by simp only [e, extractUnless, extract, hp]
    by_cases hdiagnostics : p.diagnostics = []
    · have hsucceeds : e.Succeeds id := by rw [he]; exact succeeds_parsed hp hdiagnostics
      have honly := hsucceeds.only
      refine ⟨.inl ⟨hsucceeds, honly⟩, ?_, ?_, hsurvey⟩
      · exact ⟨fun _ => ⟨p, hp, hdiagnostics⟩, fun _ => hsucceeds⟩
      · exact ⟨fun h => absurd h honly.2, fun h => absurd h hnone⟩
    · have hrefuses : e.Refuses id := by rw [he]; exact refuses_parsed hdiagnostics
      have hnot : ¬e.Succeeds id := fun h => h.only.1 hrefuses
      refine ⟨.inr (.inl ⟨hnot, hrefuses, hrefuses.not_breaksOff⟩), ?_, ?_, hsurvey⟩
      · refine ⟨fun h => absurd h hnot, ?_⟩
        rintro ⟨p', hp', hdiagnostics'⟩
        rw [hp] at hp'
        cases hp'
        exact absurd hdiagnostics' hdiagnostics
      · exact ⟨fun h => absurd h hrefuses.not_breaksOff, fun h => absurd h hnone⟩

end KustoFacts
