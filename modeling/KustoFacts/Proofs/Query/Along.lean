import KustoFacts.Proofs.Query.Levels
import KustoFacts.Proofs.Query.Lossless
import KustoFacts.Query.Parser.Grammar

/-!
    Reading goes along the text. The tokens of a text stand in it one after another, and a parser
    consumes them in this order, so that it never moves back: what it has consumed ends before the
    current token begins, and what it reports, it reports at places further and further on. Each
    single move keeps this (`ParserState.Along`), and hence every run of every parser does. -/

namespace KustoFacts

/-- A diagnostic has a range in a text, and its line and column are those of where it starts. -/
structure Diagnostic.Points (text : Bytes) (d : Diagnostic) : Prop where
  start : d.start ≤ d.stop
  stop : d.stop ≤ text.length
  line : d.place.line = 1 + (text.take d.start).count lineFeed
  column : d.place.column = 1 + ((text.take d.start).reverse.takeWhile (· ≠ lineFeed)).length

/-- A diagnostic about a whole token of a text. -/
theorem Token.Spells.points {text : Bytes} {t : Token} {d : Diagnostic} (h : t.Spells text)
    (hplace : d.place = t.pos) (hstop : d.stop = t.stop) : d.Points text := by
  rcases d with ⟨place, stop, fault⟩
  subst hplace hstop
  exact ⟨h.start, h.stop, h.line, h.column⟩

/-- Tokens that stand in a text one after another, each cut off by its first bytes. Only the one that
    ends the text is empty. -/
structure Tokens.Laid (text : Bytes) (r : Tokens) : Prop where
  ending : r.ending.kind = .endOfInput ∧ r.ending.pos.offset = text.length ∧
    r.ending.stop = text.length
  tokens : ∀ t ∈ r.tokens, t.kind ≠ .endOfInput ∧ t.pos.offset < t.stop
  spells : ∀ t ∈ r.all, t.Spells text
  ordered : r.all.Pairwise fun t u => t.stop ≤ u.pos.offset
  cut : ∀ t ∈ r.tokens, ∃ b rest, t = tokenAt t.pos b rest

theorem Tokens.laid_tokenize {text : Bytes} {r : Tokens} (h : tokenize text = .ok r) :
    r.Laid text := by
  have hyields : (Lexer.ofText text).Yields r := Lexer.yields_of_tokens h
  have hat : Lexer.At text [] (Lexer.ofText text) := ⟨rfl, rfl⟩
  obtain ⟨hspells, hgaps, htokens, hending⟩ := hyields.stands hat
  have hlength : (Position.start.advance text).offset = text.length := by
    rw [Position.advance_start]
  refine ⟨?_, htokens, hspells, (hgaps.pairwise fun t ht => (hspells t ht).start).2, hyields.cut⟩
  rw [hending]
  exact ⟨rfl, hlength, hlength⟩

namespace ParserState

variable {text : Bytes} {read : Tokens} {s t : ParserState}

/-- A state on the way through the tokens of a text. -/
structure Along (text : Bytes) (read : Tokens) (s : ParserState) : Prop where
  laid : read.Laid text
  source : s.source = text
  ending : s.ending = read.ending
  tokens : s.tokens <:+ read.tokens
  prevEnd : s.prevEnd ≤ s.current.pos.offset
  reported : s.reported.Pairwise fun d e => e.start ≤ d.start
  points : ∀ d ∈ s.reported, d.Points text ∧ d.start ≤ s.current.pos.offset

/-- One state is not behind another. -/
structure Before (s t : ParserState) : Prop where
  prevEnd : s.prevEnd ≤ t.prevEnd
  offset : s.current.pos.offset ≤ t.current.pos.offset

theorem Before.refl (s : ParserState) : s.Before s := ⟨Nat.le_refl _, Nat.le_refl _⟩

theorem Before.trans {u : ParserState} (h : s.Before t) (k : t.Before u) : s.Before u :=
  ⟨Nat.le_trans h.prevEnd k.prevEnd, Nat.le_trans h.offset k.offset⟩

namespace Along

theorem all_suffix (h : s.Along text read) : s.tokens ++ [s.ending] <:+ read.all := by
  obtain ⟨before, hbefore⟩ := h.tokens
  exact ⟨before, by rw [Tokens.all, h.ending, ← hbefore, List.append_assoc]⟩

theorem current_mem (h : s.Along text read) : s.current ∈ read.all := by
  refine h.all_suffix.subset ?_
  rcases hs : s.tokens with _ | ⟨t, ts⟩ <;> simp [current, hs]

theorem spells_current (h : s.Along text read) : s.current.Spells text :=
  h.laid.spells _ h.current_mem

/-- What is not the end is a token that is left. -/
theorem tokens_eq (h : s.Along text read) (hs : s.current.kind ≠ .endOfInput) :
    s.tokens = s.current :: s.tokens.tail := by
  rcases htokens : s.tokens with _ | ⟨t, ts⟩
  · rw [current, htokens, List.headD_nil, h.ending] at hs
    exact absurd h.laid.ending.1 hs
  · rw [current, htokens]
    rfl

/-- At the end no token is left. -/
theorem tokens_eq_nil (h : s.Along text read) (hs : s.current.kind = .endOfInput) :
    s.tokens = [] := by
  rcases htokens : s.tokens with _ | ⟨t, ts⟩
  · rfl
  · rw [current, htokens, List.headD_cons] at hs
    have ht : t ∈ read.tokens := h.tokens.subset (htokens ▸ List.mem_cons_self)
    exact absurd hs (h.laid.tokens t ht).1

/-- Three tokens that are left, if the third is not the end. -/
theorem tokens_eq_three (h : s.Along text read) (hs : s.current.kind ≠ .endOfInput)
    (hthird : s.afterNext.kind ≠ .endOfInput) :
    ∃ rest, s.tokens = s.current :: s.next :: s.afterNext :: rest := by
  have htokens := h.tokens_eq hs
  unfold afterNext at hthird ⊢
  unfold next
  rcases htail : s.tokens.tail with _ | ⟨t, _ | ⟨u, rest⟩⟩ <;> rw [htail] at hthird htokens
  · rw [List.tail_nil, List.headD_nil, h.ending] at hthird
    exact absurd h.laid.ending.1 hthird
  · rw [List.tail_cons, List.headD_nil, h.ending] at hthird
    exact absurd h.laid.ending.1 hthird
  · exact ⟨rest, htokens⟩

theorem mem_tokens (h : s.Along text read) (hs : s.current.kind ≠ .endOfInput) :
    s.current ∈ read.tokens := by
  refine h.tokens.subset ?_
  rw [h.tokens_eq hs]
  exact List.mem_cons_self

theorem current_lt (h : s.Along text read) (hs : s.current.kind ≠ .endOfInput) :
    s.current.pos.offset < s.current.stop := (h.laid.tokens _ (h.mem_tokens hs)).2

/-- The current token binds as it is spelled. -/
theorem operatorLevel_current (h : s.Along text read) (hs : infixLevel s.current ≠ 0) :
    operatorLevel s.current.text = infixLevel s.current := by
  have hend : s.current.kind ≠ .endOfInput := fun hend => hs (by simp [infixLevel, hend])
  obtain ⟨b, rest, ht⟩ := h.laid.cut _ (h.mem_tokens hend)
  rw [ht] at hs ⊢
  exact operatorLevel_tokenAt _ b rest hs

theorem prevEnd_le (h : s.Along text read) : s.prevEnd ≤ text.length := by
  have hcurrent := h.spells_current
  exact Nat.le_trans h.prevEnd (Nat.le_trans hcurrent.start hcurrent.stop)

/-- The current token ends before the next one begins; at the end both are the end. -/
theorem stop_le_next (h : s.Along text read) : s.current.stop ≤ s.next.pos.offset := by
  have hordered := h.laid.ordered.sublist h.all_suffix.sublist
  unfold current next
  rcases htokens : s.tokens with _ | ⟨t, ts⟩
  · rw [List.headD_nil, List.tail_nil, List.headD_nil, h.ending, h.laid.ending.2.1,
      h.laid.ending.2.2]
  · rw [htokens, List.cons_append, List.pairwise_cons] at hordered
    refine hordered.1 _ ?_
    rcases ts with _ | ⟨u, us⟩ <;> simp

/-! ### Single moves -/

theorem before_advance (h : s.Along text read) : s.Before s.advance := by
  have hstart := h.spells_current.start
  have hnext := h.stop_le_next
  have hprev := h.prevEnd
  exact ⟨Nat.le_trans hprev hstart, Nat.le_trans hstart hnext⟩

theorem advance (h : s.Along text read) : s.advance.Along text read where
  laid := h.laid
  source := h.source
  ending := h.ending
  tokens := (List.tail_suffix _).trans h.tokens
  prevEnd := h.stop_le_next
  reported := h.reported
  points := by
    intro d hd
    obtain ⟨hpoints, hstart⟩ := h.points d hd
    exact ⟨hpoints, Nat.le_trans hstart h.before_advance.offset⟩

/-- Two tokens that are left stand next to each other in the text. -/
theorem pair_infix (h : s.Along text read) (hs : s.current.kind ≠ .endOfInput)
    (hnext : s.next.kind ≠ .endOfInput) : [s.current, s.next] <:+: read.tokens := by
  obtain ⟨before, hbefore⟩ := h.tokens
  have htail : s.tokens.tail = s.next :: s.tokens.tail.tail := h.advance.tokens_eq hnext
  refine ⟨before, s.tokens.tail.tail, ?_⟩
  rw [← hbefore, h.tokens_eq hs, htail, List.append_assoc]
  rfl

/-- A report stands at the current token, and all reports before it do not stand behind it. -/
theorem report (h : s.Along text read) (fault : Fault) : (s.report fault).Along text read where
  laid := h.laid
  source := h.source
  ending := h.ending
  tokens := h.tokens
  prevEnd := h.prevEnd
  reported := .cons (fun d hd => (h.points d hd).2) h.reported
  points := by
    intro d hd
    rcases List.mem_cons.1 hd with rfl | hd
    · refine ⟨h.spells_current.points rfl ?_, Nat.le_refl _⟩
      exact Nat.max_eq_right h.spells_current.start
    · exact h.points d hd

theorem reportNesting (h : s.Along text read) : s.reportNesting.Along text read := by
  unfold ParserState.reportNesting
  split
  · exact h
  · exact { h.report .nestingTooDeep with }

theorem before_reportNesting (s : ParserState) : s.Before s.reportNesting := by
  unfold ParserState.reportNesting
  split
  · exact .refl s
  · exact ⟨Nat.le_refl _, Nat.le_refl _⟩

/-! ### All moves -/

theorem moves (h : s.Along text read) (hmoves : s.Moves t) : t.Along text read ∧ s.Before t := by
  induction hmoves with
  | refl => exact ⟨h, .refl s⟩
  | advance _ ih => exact ⟨ih.1.advance, ih.2.trans ih.1.before_advance⟩
  | report _ fault ih => exact ⟨ih.1.report fault, ⟨ih.2.prevEnd, ih.2.offset⟩⟩
  | @reportNesting t _ ih => exact ⟨ih.1.reportNesting, ih.2.trans (before_reportNesting t)⟩
  | level _ depth ih => exact ⟨{ ih.1 with }, ⟨ih.2.prevEnd, ih.2.offset⟩⟩

end Along
end ParserState

/-- A text is read from its beginning on. -/
theorem Parser.along_initial {text : Bytes} {read : Tokens} (h : tokenize text = .ok read) :
    (initial text read).Along text read where
  laid := Tokens.laid_tokenize h
  source := rfl
  ending := rfl
  tokens := List.suffix_rfl
  prevEnd := Nat.zero_le _
  reported := .nil
  points := nofun

end KustoFacts
