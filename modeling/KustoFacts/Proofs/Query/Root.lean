import KustoFacts.Proofs.Query.Agreement.Grammar

/-!
    The statements of a whole text. At the top level the short text is read to its end; the long text
    has then read like statements and goes on with what follows. -/

namespace KustoFacts.Frame

open KustoFacts.Parser

variable {F : Frame} {steps : Nat} {g g' : Grammar} {s u t : ParserState}

/-- The statements of a text from a state on, after those found before. -/
def statements (g : Grammar) (bound : Nat) (found : List Node) (s : ParserState) :
    Option (List Node) × ParserState :=
  rounds (statementRound g .endOfInput) bound found s

theorem statements_again {bound : Nat} {found found' : List Node}
    (h : (statementRound g .endOfInput found).run s = (some (.again found'), t)) :
    statements g (bound + 1) found s = statements g bound found' t := by
  rw [statements, rounds_succ, h]
  rfl

/-- Statements read without a report begin with a round without one. -/
theorem clean_statementRound {bound : Nat} {found : List Node}
    (hc : (statements g (bound + 1) found s).2.Clean) :
    ((statementRound g .endOfInput found).run s).2.Clean := by
  rw [statements, rounds_succ] at hc
  rcases hr : (statementRound g .endOfInput found).run s with ⟨_ | found1 | found1, t⟩ <;>
    rw [hr] at hc
  · exact hc
  · exact (forward_rounds _ bound found1 t).clean hc
  · exact hc

/-- At the end of the text no statement is left. -/
theorem statements_end {bound : Nat} {found : List Node} (hs : s.current.kind = .endOfInput) :
    statements g (bound + 1) found s = (some found.reverse, s) := by
  rw [statements, rounds_succ, statementRound_stop (.inl hs)]

/-- The long text reads what the short text reads to its end, and goes on from there. -/
theorem statements_follow (G : F.Grammars steps g g') (hp : ¬F.Piped) :
    ∀ (bound bound' : Nat) (found found' : List Node) (s u : ParserState), F.Alike s u →
      2 * s.tokens.length + 1 ≤ steps → s.tokens.length ≤ bound' →
      (statements g bound found s).2.Clean →
      ∃ news news' t v rounds, statements g bound found s = (some (found.reverse ++ news), t) ∧
        statements g' bound' found' u = statements g' rounds (news'.reverse ++ found') v ∧
        List.Forall₂ F.Copy news news' ∧ F.Alike t v ∧ t.tokens = [] ∧
        bound' ≤ rounds + s.tokens.length := by
  intro bound
  induction bound with
  | zero =>
    intro bound' found found' s u _ _ _ hc
    exact absurd hc s.not_clean_reportNesting
  | succ bound ih =>
    intro bound' found found' s u h hn hb hc
    by_cases hs : s.tokens = []
    · refine ⟨[], [], s, u, bound', ?_, rfl, .nil, h, hs, Nat.le_add_right _ _⟩
      rw [statements_end (h.current_of_nil hs), List.append_nil]
    have hpos := List.length_pos_iff.2 hs
    obtain ⟨bound', rfl⟩ : ∃ m, bound' = m + 1 := ⟨bound' - 1, by omega⟩
    have hround := clean_statementRound hc
    have hwithin : F.Within .beforePipe ((statementRound g .endOfInput found).run s).2 :=
      fun hpiped => absurd hpiped hp
    obtain ⟨new, new', t, v, hrun, hrun', hnew, htv⟩ :=
      statementRound_adds G h hs hn (by decide) (by decide) (h.current_ne_end hs) hround hwithin
    have lt := htv.fewer
    rw [statements_again hrun] at hc ⊢
    obtain ⟨news, news', t1, v1, rounds, hshort, hlong, hnews, h1, hnil, hrounds⟩ :=
      ih bound' (new ++ found) (new' ++ found') t v htv.toAlike (by omega) (by omega) hc
    refine ⟨new.reverse ++ news, new'.reverse ++ news', t1, v1, rounds, ?_, ?_,
      List.rel_append (List.rel_reverse hnew) hnews, h1, hnil, by omega⟩
    · rw [hshort, List.reverse_append, List.append_assoc]
    · rw [statements_again (hrun' found'), hlong, List.reverse_append, List.reverse_reverse,
        List.append_assoc]

end KustoFacts.Frame

namespace KustoFacts

open KustoFacts.Parser KustoFacts.Frame

variable {text : Bytes} {read : Tokens}

/-- The grammar a text with a number of tokens is read with. -/
def Grammar.forTokens (n : Nat) : Grammar := ⟨2 * n + 1, Grammar.reachIn (2 * n + 1)⟩

/-- Where the first statement of a text is read. -/
def Parser.start (text : Bytes) (read : Tokens) : ParserState := deeper (initial text read)

/-- What the statements of a text are found to be. -/
def Parser.statementsOf (text : Bytes) (read : Tokens) : Option (List Node) × ParserState :=
  statements (.forTokens read.tokens.length) (2 * read.tokens.length + 1) [] (start text read)

/-- A text whose statements are read without a report. -/
def Parser.Reads (text : Bytes) (read : Tokens) (nodes : List Node) : Prop :=
  (statementsOf text read).1 = some nodes ∧ (statementsOf text read).2.Clean

/-- A text is one statement if that is read up to the end of the text without a report. -/
theorem Parser.statementsOf_statement {node : Node} {t : ParserState} (htokens : read.tokens ≠ [])
    (hfirst : endsStatement .endOfInput (start text read).current = false)
    (hrun : (statement (.forTokens read.tokens.length)).run (start text read) = (some node, t))
    (ht : t.Clean) (hend : t.current.kind = .endOfInput) :
    statementsOf text read = (some [node], t) := by
  obtain ⟨bound, hbound⟩ : ∃ bound, 2 * read.tokens.length + 1 = bound + 1 + 1 :=
    ⟨2 * read.tokens.length - 1, by have := List.length_pos_iff.2 htokens; omega⟩
  simp only [endsStatement, Bool.or_eq_false_iff, decide_eq_false_iff_not] at hfirst
  have hround : (statementRound (.forTokens read.tokens.length) .endOfInput []).run
      (start text read) = (some (.again [node]), t) :=
    statementRound_statement hfirst.2 hfirst.2 hfirst.1.1 hrun ht (by simp [endsStatement, hend])
  rw [statementsOf, hbound]
  exact (statements_again hround).trans (statements_end hend)

theorem run_nested {α : Type} {inside beyond : Parser α} {s : ParserState}
    (h : s.depth + 1 ≤ maxNesting) :
    (nested inside beyond).run s =
      ((inside.run (deeper s)).1,
        { (inside.run (deeper s)).2 with depth := (inside.run (deeper s)).2.depth - 1 }) := by
  simp only [nested, if_pos h]
  rfl

/-- The tree of a text is the query of its statements. -/
theorem runQuery_eq (text : Bytes) (read : Tokens) :
    (runQuery text read).1 = (statementsOf text read).1.map (fun nodes =>
      .mk .none .query (ParserState.spanFrom (statementsOf text read).2 (initial text read).current)
        (initial text read).current (nodes.map (·.inSlot .statement))) ∧
    (runQuery text read).2.tooDeep = (statementsOf text read).2.tooDeep ∧
    (runQuery text read).2.reported = (statementsOf text read).2.reported ∧
    (runQuery text read).2.tokens = (statementsOf text read).2.tokens := by
  have hdepth : (initial text read).depth + 1 ≤ maxNesting := Nat.le_add_left 1 999
  rw [runQuery, enough, Grammar.reachIn, Grammar.produce, query, run_current_bind, run_bind,
    run_nested hdepth]
  rw [show (loop (statementRound ⟨2 * read.tokens.length + 1,
      Grammar.reachIn (2 * read.tokens.length + 1)⟩ .endOfInput)
      (2 * read.tokens.length + 1) []).run (deeper (initial text read)) =
        statementsOf text read from rfl]
  rcases statementsOf text read with ⟨_ | nodes, t⟩ <;> exact ⟨rfl, rfl, rfl, rfl⟩

end KustoFacts
