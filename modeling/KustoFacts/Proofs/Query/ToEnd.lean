import KustoFacts.Proofs.Query.Consumes
import KustoFacts.Proofs.Query.Root

/-!
    Reading to the end. Whatever is wrong with a text, its parser consumes all of its tokens: a
    statement ends at a semicolon, at a stop token or at the end of the text, what is left of it
    after a fault is skipped up to there, and so every round of reading statements consumes a token.
    The lexer is thereby asked for every token, and nothing that it has to report is missed. -/

namespace KustoFacts.Parser

variable {α β : Type} {text : Bytes} {read : Tokens} {g : Grammar} {s t : ParserState}
  {stop : TokenKind}

/-- A round that stops in a given way if it stops. -/
def Stops (Q : ParserState → Prop) (step : Parser (Round α β)) (s : ParserState) : Prop :=
  Leads step s (Leads.OfRound (fun _ _ => True) fun _ => Q)

/-- A step that does not give up. -/
def Succeeds (p : Parser α) (s : ParserState) : Prop := ∃ a t, p.run s = (some a, t)

/-- Rounds that advance and do not give up come to a stop when there are more of them than tokens. -/
theorem rounds_succeed {Q : ParserState → Prop} {n : Nat} {step : α → Parser (Round α β)}
    (hadvances : ∀ a s, s.Along text read → Advances (step a) s)
    (hstops : ∀ a s, s.Along text read → Stops Q (step a) s)
    (hsucceeds : ∀ a s, s.Along text read → s.tokens.length < n → Succeeds (step a) s) :
    ∀ (bound : Nat) (a : α) (s : ParserState), s.Along text read → s.tokens.length < bound →
      bound ≤ n → ∃ b t, rounds step bound a s = (some b, t) ∧ Q t
  | 0, _, _, _, hbound, _ => absurd hbound (Nat.not_lt_zero _)
  | bound + 1, a, s, hs, hbound, hn => by
    obtain ⟨round, t, hrun⟩ := hsucceeds a s hs (Nat.lt_of_lt_of_le hbound hn)
    have hmoves := ((step a).forward s).moves
    have hadvance := hadvances a s hs round t hrun
    have hstop := hstops a s hs round t hrun
    rw [hrun] at hmoves
    rw [rounds_succ, hrun]
    cases round with
    | again a' =>
      have hfew : t.tokens.length < s.tokens.length := hadvance
      exact rounds_succeed hadvances hstops hsucceeds bound a' t (hs.moves hmoves).1 (by omega)
        (by omega)
    | done b => exact ⟨b, t, rfl, hstop⟩

/-! ### Skipping -/

/-- A state at the end of a statement. -/
def Ends (stop : TokenKind) (s : ParserState) : Prop := endsStatement stop s.current = true

/-- Between a state in a statement and one at its end there are tokens. -/
theorem lt_of_ends (h : s.Forward t) (hs : ¬Ends stop s) (ht : Ends stop t) :
    t.tokens.length < s.tokens.length := by
  refine Nat.lt_of_le_of_ne h.tokens.length_le fun hlength => hs ?_
  have htokens : t.tokens = s.tokens := h.tokens.eq_of_length hlength
  have hcurrent : t.current = s.current := by
    rw [ParserState.current, ParserState.current, htokens, h.ending]
  rwa [Ends, ← hcurrent]

theorem ends_of_kind (h : s.current.kind = .semicolon ∨ s.current.kind = .endOfInput ∨
    s.current.kind = stop) : Ends stop s := by
  rcases h with h | h | h <;> simp [Ends, endsStatement, h]

/-- Skipping stops at the end of the statement. -/
theorem stops_skipRound (stop : TokenKind) (depth : Int) (s : ParserState) :
    Stops (Ends stop) (skipRound stop depth) s := by
  refine .look ?_
  split
  next hkind => exact .pure (ends_of_kind (.inr (.inl hkind)))
  next hkind =>
    split
    · exact .pure (ends_of_kind (.inl hkind))
    · exact .skip (.pure trivial)
  next => exact .skip (.pure trivial)
  next hkind =>
    split
    next hstop =>
      simp only [Bool.and_eq_true, decide_eq_true_eq] at hstop
      exact .pure (ends_of_kind (.inr (.inr (hkind.trans hstop.2.symm))))
    next => exact .skip (.pure trivial)
  next => exact .skip (.pure trivial)

theorem skipRound_succeeds (stop : TokenKind) (depth : Int) (s : ParserState) :
    Succeeds (skipRound stop depth) s := by
  rw [Succeeds, skipRound, run_current_bind]
  split
  · exact ⟨_, _, rfl⟩
  · split <;> exact ⟨_, _, rfl⟩
  · exact ⟨_, _, rfl⟩
  · split <;> exact ⟨_, _, rfl⟩
  · exact ⟨_, _, rfl⟩

theorem leads_skipStatement (hs : s.Along text read) :
    Leads (skipStatement g stop) s fun _ t => Ends stop t := by
  have hstands : s.Stands text read (maxNesting - s.depth) := { hs with room := rfl }
  exact .loop hstands trivial fun depth t _ _ _ => stops_skipRound stop depth t

theorem skipStatement_succeeds (hs : s.Along text read) (hbound : s.tokens.length < g.bound) :
    Succeeds (skipStatement g stop) s := by
  obtain ⟨a, t, hrun, -⟩ := rounds_succeed (fun _ _ ht => advances_skipRound ht)
    (fun depth t _ => stops_skipRound stop depth t) (fun depth t _ _ => skipRound_succeeds stop depth t)
    g.bound (0 : Int) s hs hbound (Nat.le_refl _)
  exact ⟨a, t, hrun⟩

/-! ### Statements -/

/-- Skipping before a round goes on. -/
def skipRest (g : Grammar) (stop : TokenKind) (found : List Node) :
    Parser (Round (List Node) (List Node)) := do
  skipStatement g stop
  return .again found

/-- What a round does when it has tried to read a statement, before which a number of faults had
    been reported. -/
def afterStatement (g : Grammar) (stop : TokenKind) (before : Nat) (found : List Node) :
    Parser (Round (List Node) (List Node)) := do
  let s ← state
  if s.reported.length > before then
    skipRest g stop found
  else if !endsStatement stop s.current then
    report (.unexpectedToken s.current.text)
    skipRest g stop found
  else return .again found

/-- A round that is not at the end of a statement tries to read one. -/
theorem statementRound_within (h : ¬Ends stop s) (found : List Node) :
    (statementRound g stop found).run s =
      (afterStatement g stop s.reported.length (((statement g).run s).1.toList ++ found)).run
        ((statement g).run s).2 := by
  simp only [Ends, endsStatement, Bool.or_eq_true, decide_eq_true_eq, not_or] at h
  obtain ⟨⟨hsemi, hend⟩, hkind⟩ := h
  rw [statementRound, run_current_bind, if_neg (by simp [hend, hkind]), run_accept_bind,
    if_neg hsemi]
  simp only [Bool.false_eq_true, if_false, run_state_bind, run_attempt_bind, afterStatement]
  split
  · rfl
  split
  · rfl
  · rfl

/-- What a round of reading statements does: it stops, it passes over a semicolon, or it is not at
    the end of a statement and tries to read one. -/
theorem statementRound_cases (g : Grammar) (stop : TokenKind) (found : List Node)
    (s : ParserState) :
    ((s.current.kind = .endOfInput ∨ s.current.kind = stop) ∧
      (statementRound g stop found).run s = (some (.done found.reverse), s)) ∨
    (s.current.kind ≠ .endOfInput ∧
      (statementRound g stop found).run s = (some (.again found), s.advance)) ∨
    (¬Ends stop s ∧ (statementRound g stop found).run s =
      (afterStatement g stop s.reported.length (((statement g).run s).1.toList ++ found)).run
        ((statement g).run s).2) := by
  by_cases hstop : s.current.kind = .endOfInput ∨ s.current.kind = stop
  · exact .inl ⟨hstop, Frame.statementRound_stop hstop⟩
  obtain ⟨hend, hkind⟩ := not_or.1 hstop
  by_cases hsemi : s.current.kind = .semicolon
  · exact .inr (.inl ⟨hend, Frame.statementRound_semicolon hsemi fun h => hkind (hsemi.trans h.symm)⟩)
  have hwithin : ¬Ends stop s := by simp [Ends, endsStatement, hsemi, hend, hkind]
  exact .inr (.inr ⟨hwithin, statementRound_within hwithin found⟩)

variable {found : List Node} {before : Nat}

/-- After a statement a round goes on at its end. -/
theorem leads_afterStatement (hs : s.Along text read) :
    Leads (afterStatement g stop before found) s
      (Leads.OfRound (fun _ t => Ends stop t) fun _ _ => False) := by
  have skipped {u : ParserState} (hu : u.Along text read) :
      Leads (skipRest g stop found) u (Leads.OfRound (fun _ t => Ends stop t) fun _ _ => False) := by
    intro round t hrun
    rw [skipRest, run_bind] at hrun
    rcases hskip : (skipStatement g stop).run u with ⟨_ | a, v⟩ <;> rw [hskip] at hrun <;>
      cases hrun
    exact leads_skipStatement hu a _ hskip
  refine .look ?_
  split
  · exact skipped hs
  split
  · exact skipped (hs.report _)
  next hends => exact .pure (show Ends stop s by simpa [Ends] using hends)

theorem afterStatement_succeeds (hs : s.Along text read) (hbound : s.tokens.length < g.bound) :
    Succeeds (afterStatement g stop before found) s := by
  have skipped {u : ParserState} (hu : u.Along text read) (hbound : u.tokens.length < g.bound) :
      Succeeds (skipRest g stop found) u := by
    obtain ⟨a, t, hrun⟩ : Succeeds (skipStatement g stop) u := skipStatement_succeeds hu hbound
    exact ⟨_, t, by rw [skipRest, run_bind, hrun]; rfl⟩
  rw [Succeeds, afterStatement, run_state_bind]
  split
  · exact skipped hs hbound
  split
  · exact skipped (hs.report _) hbound
  · exact ⟨_, _, rfl⟩

/-- A round of reading statements stops where there are no more. -/
theorem stops_statementRound (hs : s.Along text read) :
    Stops (fun t => t.current.kind = .endOfInput ∨ t.current.kind = stop)
      (statementRound g stop found) s := by
  intro round t hrun
  rcases statementRound_cases g stop found s with ⟨hstop, h⟩ | ⟨-, h⟩ | ⟨-, h⟩ <;> rw [h] at hrun
  · cases hrun
    exact hstop
  · cases hrun
    trivial
  · have hafter := leads_afterStatement (hs.moves ((statement g).forward s).moves).1 round t hrun
    cases round with
    | again found' => trivial
    | done found' => exact hafter.elim

/-- A round of reading statements that goes on has consumed a token: where a statement was given up
    without consuming any, what is skipped begins with one. -/
theorem advances_statementRound (hs : s.Along text read) :
    Advances (statementRound g stop found) s := by
  intro round t hrun
  have hforward := (statementRound g stop found).forward s
  rw [hrun] at hforward
  rcases statementRound_cases g stop found s with ⟨-, h⟩ | ⟨hend, h⟩ | ⟨hwithin, h⟩ <;>
    rw [h] at hrun
  · cases hrun
    trivial
  · cases hrun
    exact lt_advance hs hend
  · have hafter := leads_afterStatement (hs.moves ((statement g).forward s).moves).1 round t hrun
    cases round with
    | again found' => exact lt_of_ends hforward hwithin hafter
    | done found' => trivial

/-- With rounds enough to skip what is left, a round of reading statements does not give up. -/
theorem statementRound_succeeds (hs : s.Along text read) (hbound : s.tokens.length < g.bound) :
    Succeeds (statementRound g stop found) s := by
  have hforward := (statement g).forward s
  have hfew := hforward.tokens.length_le
  rcases statementRound_cases g stop found s with ⟨-, h⟩ | ⟨-, h⟩ | ⟨-, h⟩ <;> rw [Succeeds, h]
  · exact ⟨_, _, rfl⟩
  · exact ⟨_, _, rfl⟩
  · exact afterStatement_succeeds (hs.moves hforward.moves).1 (by omega)

/-- All statements of a text are read. -/
theorem statementsOf_succeeds (h : tokenize text = .ok read) :
    ∃ nodes t, statementsOf text read = (some nodes, t) ∧ t.current.kind = .endOfInput := by
  have hstart : (start text read).Along text read := { along_initial h with }
  have hfew : (start text read).tokens.length < 2 * read.tokens.length + 1 := by
    rw [show (start text read).tokens = read.tokens from rfl]
    omega
  let step := statementRound (.forTokens read.tokens.length) .endOfInput
  obtain ⟨nodes, t, hrun, ht⟩ := @rounds_succeed _ _ text read _ _ step
    (fun _ _ hs => advances_statementRound hs) (fun _ _ hs => stops_statementRound hs)
    (fun _ _ hs => statementRound_succeeds hs) (2 * read.tokens.length + 1) [] _ hstart hfew
    (Nat.le_refl _)
  exact ⟨nodes, t, hrun, or_self_iff.1 ht⟩

/-- All tokens of a text are consumed. -/
theorem tokens_runQuery (h : tokenize text = .ok read) : (runQuery text read).2.tokens = [] := by
  obtain ⟨nodes, t, hrun, ht⟩ := statementsOf_succeeds h
  have hstart : (start text read).Along text read := { along_initial h with }
  have hforward : (start text read).Forward (statementsOf text read).2 := forward_rounds _ _ _ _
  rw [(runQuery_eq text read).2.2.2, hrun]
  rw [hrun] at hforward
  exact (hstart.moves hforward.moves).1.tokens_eq_nil ht

end KustoFacts.Parser
