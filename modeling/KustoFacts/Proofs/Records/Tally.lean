import KustoFacts.Proofs.Records.Transparency

/-!
    What lines stand for. A line stands for facts, or it is a record without facts, or it is no
    record at all. Lines are taken up to the first whose facts a sink refuses, and this one with
    them; each line taken is counted once, as a record or as skipped, and each record once, as
    emitted or as failed, except for the one whose facts were refused. Nothing here runs: a run is
    held against these definitions. -/

namespace KustoFacts

/-- A run that is not called off. -/
def Context.never : Context := ⟨fun _ => none⟩

@[simp] theorem Context.calledOff_never (taken : Nat) : Context.never.calledOff taken = none := rfl

/-! ### What a line stands for -/

namespace Line

/-- The fields of a line that is within the limit and has exactly two, with a comma between them; a
    carriage return at the end of the line belongs to neither. -/
def fields? (line : Line) : Option (Bytes × Bytes) :=
  line.text.bind fun text =>
    match Bytes.splitOn (byteOf ',') (Bytes.withoutEnding text [carriageReturn]) with
    | [id, payload] => some (id, payload)
    | _ => none

/-- The facts a line stands for: its second field is the base64 of a valid text, and they are what
    is extracted from this text under the id in its first field. -/
def facts? (options : ExtractOptions) (line : Line) : Option Facts :=
  line.fields?.bind fun (id, payload) =>
    ((Base64.decode (trimBlanks payload)).toOption.filter Utf8.isValid).bind fun text =>
      (extract options id text).outcome.toOption

/-- The record on a line, if it holds one. -/
def record? (line : Line) : Option Record :=
  line.text.bind fun text => Record.ofLine? line.number text

end Line

/-- The facts that a record stands for. -/
def Record.facts? (options : ExtractOptions) (r : Record) : Option Facts :=
  r.decode.toOption.bind fun q => (extract options q.id q.text).outcome.toOption

namespace Line

theorem fields?_eq (line : Line) : line.fields? = line.record?.map fun r => (r.id, r.payload) := by
  rw [fields?, record?]
  cases line.text with
  | none => rfl
  | some text =>
    simp only [Option.bind_some, Record.ofLine?]
    -- Both sides look at the number of fields.
    rcases Bytes.splitOn (byteOf ',') (text.withoutEnding [carriageReturn]) with
      _ | ⟨id, _ | ⟨payload, _ | ⟨more, rest⟩⟩⟩ <;> rfl

/-- The facts of a line are those of the record on it. -/
theorem facts?_eq (options : ExtractOptions) (line : Line) :
    line.facts? options = line.record?.bind (Record.facts? options) := by
  rw [facts?, fields?_eq]
  cases line.record? with
  | none => rfl
  | some r =>
    simp only [Option.map_some, Option.bind_some, Record.facts?, Record.decode, Record.payloadText]
    cases Base64.decode (trimBlanks r.payload) with
    | error offset => rfl
    | ok text =>
      by_cases hvalid : Utf8.isValid text
      · simp [Except.toOption, Option.filter, hvalid]
      · simp [Except.toOption, Option.filter, hvalid]

end Line

/-- Whether a sink takes facts. -/
def Sink.takes (sink : Sink) (facts : Facts) : Bool := (sink facts).isNone

instance : Zero Stats := ⟨⟨0, 0, 0, 0, 0⟩⟩

instance : Add Stats :=
  ⟨fun s t => ⟨s.records + t.records, s.skipped + t.skipped, s.emitted + t.emitted,
    s.failed + t.failed, s.cacheHits + t.cacheHits⟩⟩

attribute [ext] Stats

/-- What a line adds to the counters before its facts are written. -/
def Line.counted (options : ExtractOptions) (line : Line) : Stats :=
  if line.fields?.isNone then { (0 : Stats) with skipped := 1 }
  else if (line.facts? options).isNone then { (0 : Stats) with records := 1, failed := 1 }
  else { (0 : Stats) with records := 1 }

/-- What a line adds to the counters. -/
def Line.stats (options : ExtractOptions) (sink : Sink) (line : Line) : Stats :=
  { line.counted options with emitted := if (line.facts? options).any sink.takes then 1 else 0 }

/-! ### What lines stand for -/

section Lines

variable (options : ExtractOptions) (sink : Sink)

/-- The facts that lines stand for, in order. -/
def factsOf (lines : List Line) : List Facts := lines.filterMap (Line.facts? options)

/-- The lines a run takes: those up to the first whose facts are refused, and this one. -/
def takenLines : List Line → List Line
  | [] => []
  | line :: rest =>
    if (line.facts? options).all sink.takes then line :: takenLines rest else [line]

/-- The first refusal that lines meet. -/
def refusal? (lines : List Line) : Option RunError :=
  (factsOf options lines).findSome? fun facts => (sink facts).map (.writing facts.id)

/-- What lines add to the counters. -/
def tally (lines : List Line) : Stats :=
  ((takenLines options sink lines).map (Line.stats options sink)).sum

end Lines

namespace Stats

@[simp] theorem records_zero : (0 : Stats).records = 0 := rfl
@[simp] theorem skipped_zero : (0 : Stats).skipped = 0 := rfl
@[simp] theorem emitted_zero : (0 : Stats).emitted = 0 := rfl
@[simp] theorem failed_zero : (0 : Stats).failed = 0 := rfl
@[simp] theorem cacheHits_zero : (0 : Stats).cacheHits = 0 := rfl

variable (s t u : Stats)

@[simp] theorem records_add : (s + t).records = s.records + t.records := rfl
@[simp] theorem skipped_add : (s + t).skipped = s.skipped + t.skipped := rfl
@[simp] theorem emitted_add : (s + t).emitted = s.emitted + t.emitted := rfl
@[simp] theorem failed_add : (s + t).failed = s.failed + t.failed := rfl
@[simp] theorem cacheHits_add : (s + t).cacheHits = s.cacheHits + t.cacheHits := rfl

theorem add_zero : s + 0 = s := rfl

theorem add_assoc : s + t + u = s + (t + u) := by
  ext <;> simp [Nat.add_assoc]

theorem withoutHits_add : (s + t).withoutHits = s.withoutHits + t.withoutHits := rfl

end Stats

section Tally

variable {options : ExtractOptions} {sink : Sink} {line : Line} {lines : List Line} {facts : Facts}

theorem takenLines_cons_of_taken (h : (line.facts? options).all sink.takes = true) :
    takenLines options sink (line :: lines) = line :: takenLines options sink lines := if_pos h

theorem takenLines_cons_of_refused (h : line.facts? options = some facts)
    (hrefused : sink.takes facts = false) : takenLines options sink (line :: lines) = [line] := by
  rw [takenLines, if_neg (by simp [h, hrefused])]

/-- The lines taken come first in the source. -/
theorem takenLines_first (lines : List Line) : takenLines options sink lines <+: lines := by
  induction lines with
  | nil => exact List.nil_prefix
  | cons line lines ih =>
    rw [takenLines]
    split
    · exact List.cons_prefix_cons.2 ⟨rfl, ih⟩
    · exact List.cons_prefix_cons.2 ⟨rfl, List.nil_prefix⟩

theorem tally_cons_of_taken (h : (line.facts? options).all sink.takes = true) :
    tally options sink (line :: lines) = line.stats options sink + tally options sink lines := by
  simp [tally, takenLines_cons_of_taken h]

theorem tally_cons_of_refused (h : line.facts? options = some facts)
    (hrefused : sink.takes facts = false) :
    tally options sink (line :: lines) = line.stats options sink := by
  simp [tally, takenLines_cons_of_refused h hrefused, Stats.add_zero]

theorem Line.emitted_counted (line : Line) : (line.counted options).emitted = 0 := by
  unfold Line.counted
  split
  · rfl
  · split <;> rfl

/-- Nothing is emitted for a line unless the sink takes its facts. -/
theorem Line.stats_eq_counted (h : (line.facts? options).any sink.takes = false) :
    line.stats options sink = line.counted options := by
  ext <;> simp [Line.stats, h, Line.emitted_counted]

theorem Line.stats_eq_emitted (h : line.facts? options = some facts)
    (htakes : sink.takes facts = true) :
    line.stats options sink = line.counted options + { (0 : Stats) with emitted := 1 } := by
  ext <;> simp [Line.stats, h, htakes, Line.emitted_counted]

/-- A line is counted as a record or as skipped. -/
theorem Line.stats_lines (options : ExtractOptions) (sink : Sink) (line : Line) :
    (line.stats options sink).records + (line.stats options sink).skipped = 1 := by
  unfold Line.stats Line.counted
  split
  · rfl
  · split <;> rfl

/-- Every line that is taken is counted once. -/
theorem length_takenLines (lines : List Line) :
    (takenLines options sink lines).length =
      (tally options sink lines).records + (tally options sink lines).skipped := by
  rw [tally]
  induction takenLines options sink lines with
  | nil => rfl
  | cons line rest ih =>
    have hline := line.stats_lines options sink
    simp only [List.length_cons, List.map_cons, List.sum_cons, Stats.records_add, Stats.skipped_add]
    omega

end Tally

end KustoFacts
