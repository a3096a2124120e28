import KustoFacts.Proofs.Query.OpenStatement

/-!
    Texts that go on with a pipe. A text that is one expression, with a pipe and operators on the
    next line, is read as that expression with these operators on top, and the operators are those
    that are read after any other such text. -/

namespace KustoFacts

open KustoFacts.Parser KustoFacts.Frame

/-- Like operators on top of two different sources. -/
inductive Node.Stacked (base base' : Node) : Node → Node → Prop where
  | base : Stacked base base' base base'
  | pipe {x y op op' : Node} {span span' : Span} {first first' : Token}
      (below : Stacked base base' x y) (like : op.Like op') :
      Stacked base base'
        (.mk .none .pipeExpression span first [x.inSlot .expression, op.inSlot .operator])
        (.mk .none .pipeExpression span' first' [y.inSlot .expression, op'.inSlot .operator])

/-- Two statements that are expressions with like operators on top of two sources. -/
def Node.StackedStatements (base base' n n' : Node) : Prop :=
  ∃ (x y : Node) (span span' : Span) (first first' : Token),
    n = .mk .none .expressionStatement span first [x.inSlot .expression] ∧
    n' = .mk .none .expressionStatement span' first' [y.inSlot .expression] ∧
    Stacked base base' x y

namespace Frame

variable {E F F' : Frame} {steps bound bound' size size' : Nat} {g g' : Grammar}
variable {s u t v : ParserState} {limit : Limit}

/-- Operators on top of two sources agree. -/
theorem agrees_operators (G : E.Grammars steps g g') (h : E.Alike s u)
    (hn : 2 * s.tokens.length ≤ steps) (hpipe : s.current.kind = .pipe) (hl : limit ≠ .anywhere)
    {first first' : Token} {base base' : Node} (hb : s.tokens.length < bound') :
    E.Agrees limit (fun x y t v => Node.Stacked base base' x y ∧ E.Touching s.tokens.length t v)
      ((loop (pipeRound g first) bound base).run s)
      ((loop (pipeRound g' first') bound' base').run u) := by
  have hround (t v : ParserState) (ht : E.Alike t v) (hle : t.tokens.length ≤ s.tokens.length)
      (hpipe : t.current.kind = .pipe) (x y : Node) (hxy : Node.Stacked base base' x y) :
      E.Agrees limit (E.Rounds (Node.Stacked base base')
        (fun x y t v => Node.Stacked base base' x y ∧ E.Touching s.tokens.length t v)
        t.tokens.length) ((pipeRound g first x).run t) ((pipeRound g' first' y).run v) := by
    refine agrees_pipeRound G ht (by omega) hpipe ?_
    intro op op' span span' hop
    exact .pipe hxy hop
  obtain _ | bound := bound
  · exact .of_not_clean s.not_clean_reportNesting
  obtain ⟨bound', rfl⟩ : ∃ m, bound' = m + 1 := ⟨bound' - 1, by omega⟩
  refine agrees_rounds_cons (hround s u h (Nat.le_refl _) hpipe base base' .base) ?_
  intro x y t v hxy ht
  refine agrees_rounds ?_ bound bound' x y t v hxy ht (by have := ht.fewer; omega)
  intro x y t v hxy ht
  by_cases hpipe : t.current.kind = .pipe
  · exact hround t v ht.toAlike (Nat.le_of_lt ht.fewer) hpipe x y hxy
  · intro hc hw
    rw [pipeRound_done hpipe] at hw ⊢
    rw [pipeRound_done (mt (ht.pipe_iff hl hw).2 hpipe)]
    exact ⟨_, _, rfl, rfl, hxy, ht⟩

/-- Two open statements are completed alike. -/
theorem agrees_tips (tip : F.Tip g bound size s) (tip' : F'.Tip g' bound' size' u)
    (G : E.Grammars steps g g') (h : E.Alike tip.here tip'.here)
    (hn : 2 * tip.here.tokens.length ≤ steps) (hpipe : tip.here.current.kind = .pipe)
    (hl : limit ≠ .anywhere) (hb : tip.here.tokens.length < tip'.operators) :
    E.Agrees limit (fun n n' t v => Node.StackedStatements tip.source tip'.source n n' ∧
        E.Touching tip.here.tokens.length t v)
      ((statement g).run tip.begun) ((statement g').run tip'.begun) := by
  rw [tip.run_statement, tip'.run_statement]
  refine .bind (agrees_operators G h hn hpipe hl hb) ?_
  rintro x y t v ⟨hxy, ht⟩
  rw [run_build, run_build]
  exact .ret ⟨⟨x, y, _, _, _, _, rfl, rfl, hxy⟩, ht⟩

/-- When one of two open statements is all of its text, so is the other. -/
theorem statements_tips {node : Node} (tip : F.Tip g bound size s) (tip' : F'.Tip g' bound' size' u)
    (G : E.Grammars steps g g') (hE : E.Fresh) (hrest : E.rest = []) (h : E.Alike tip.here tip'.here)
    (hn : 2 * tip.here.tokens.length + 1 ≤ steps) (hpipe : tip.here.current.kind = .pipe)
    (hoperators : tip.here.tokens.length < tip'.operators)
    (hstatements : tip.here.tokens.length < tip'.statements)
    (hc : (statements g bound [] s).2.Clean) (hnode : (statements g bound [] s).1 = some [node]) :
    ∃ node' v, statements g' bound' [] u = (some [node'], v) ∧ v.Clean ∧
      Node.StackedStatements tip.source tip'.source node node' := by
  have hp : ¬E.Piped := by
    rintro ⟨t, ht, -⟩
    rw [hrest] at ht
    cases ht
  have hw (t : ParserState) : E.Within .beforePipe t := fun hpiped => absurd hpiped hp
  rw [tip.run_statements] at hc hnode
  rw [tip'.run_statements]
  -- the statement itself
  obtain ⟨n, t, hrun, ht, hends⟩ := statement_of_clean tip.begun_ne_end tip.begun_ne_end
    tip.begun_ne_semicolon (clean_statementRound hc)
  have agrees : E.Agrees .beforePipe _ _ _ :=
    agrees_tips tip tip' G h (by omega) hpipe (by decide) hoperators
  rw [hrun] at agrees
  obtain ⟨n', y, hn', hy, hstacked, htv⟩ := agrees ht (hw t)
  cases hn'
  rcases hrun' : (statement g').run tip'.begun with ⟨_ | m, v⟩ <;> rw [hrun'] at hy htv <;> cases hy
  have hends' := htv.endsStatement_of (by decide) (hw t) hends
  have lt : t.tokens.length < tip.here.tokens.length := htv.fewer
  rw [statements_again (statementRound_statement tip.begun_ne_end tip.begun_ne_end
    tip.begun_ne_semicolon hrun ht hends)] at hc hnode
  rw [statements_again (statementRound_statement tip'.begun_ne_end tip'.begun_ne_end
    tip'.begun_ne_semicolon hrun' (htv.clean' hE) hends')]
  -- nothing but semicolons after it
  obtain ⟨news, news', t', v', rounds, hshort, hlong, hlike, hend, hnil, hrounds⟩ :=
    statements_follow G hp tip.statements tip'.statements [n] [y] t v htv.toAlike (by omega)
      (by omega) hc
  rw [hshort] at hnode
  obtain ⟨rfl, rfl⟩ : n = node ∧ news = [] := by simpa using hnode
  obtain rfl : news' = [] := List.length_eq_zero_iff.1 hlike.length_eq.symm
  obtain ⟨rounds, rfl⟩ : ∃ m, rounds = m + 1 := ⟨rounds - 1, by omega⟩
  have hlast : v'.current.kind = .endOfInput := by
    rw [ParserState.current, hend.rest_of_nil hnil, hrest]
    exact hend.ending'
  rw [hlong, statements_end hlast]
  exact ⟨y, v', rfl, hend.clean' hE, hstacked⟩

end Frame

/-! ### Whole texts -/

section Texts

variable {a a' tail : Bytes} {ra ra' r : Tokens}

/-- A text with a pipe and more on the next line. -/
def piped (a tail : Bytes) : Bytes := a ++ lineFeed :: byteOf '|' :: tail

/-- The tokens of two texts that go on alike after a pipe: the pipe and what follows are the same at
    other places. -/
theorem tokenize_piped (ha : tokenize a = .ok ra) (hra : ra.diagnostics = [])
    (ha' : tokenize a' = .ok ra') (hra' : ra'.diagnostics = []) (h : tokenize (piped a tail) = .ok r)
    (hr : r.diagnostics = []) :
    ∃ r' pipe pipe' ts ts', tokenize (piped a' tail) = .ok r' ∧ r'.diagnostics = [] ∧
      r'.ending.kind = .endOfInput ∧ r.tokens = ra.tokens ++ pipe :: ts ∧
      r'.tokens = ra'.tokens ++ pipe' :: ts' ∧ pipe.kind = .pipe ∧
      List.Forall₂ (Token.Same (a.length + 1) (a'.length + 1)) (pipe :: ts) (pipe' :: ts') ∧
      ∀ t ∈ pipe :: ts, t.kind ≠ .endOfInput ∧ a.length + 1 ≤ t.pos.offset ∧
        t.pos.offset ≤ (piped a tail).length ∧ t.stop ≤ (piped a tail).length := by
  have hdivides : Tokens.Divides (byteOf '|') .pipe := by constructor <;> decide
  obtain ⟨pos, pipe, hpos, hpipe, hread⟩ := Tokens.tokenize_divided tail hdivides ha hra
  obtain ⟨pos', pipe', hpos', hpipe', hread'⟩ := Tokens.tokenize_divided tail hdivides ha' hra'
  rw [← piped, h] at hread
  rcases hrest : Tokens.readFrom 0 false pos [] [] tail with e | rest <;>
    rw [hrest] at hread <;> cases hread
  obtain ⟨rest', hrest', hsame, hlexed, hending⟩ := Tokens.same_readFrom hrest pos'
  obtain ⟨hstands, -, -, -⟩ := Tokens.stands_readFrom (Nat.zero_le _) hrest
  rw [← piped, hrest'] at hread'
  refine ⟨_, pipe, pipe', rest.tokens, rest'.tokens, hread', hlexed hr, hending,
    by simp [Tokens.onto], by simp [Tokens.onto], hpipe.kind, .cons ?_ (hsame.imp ?_), ?_⟩
  · refine ⟨hpipe'.kind.trans hpipe.kind.symm, hpipe'.text.trans hpipe.text.symm, ?_, ?_⟩
    · rw [hpipe'.offset, hpipe.offset, Nat.add_comm]
    · rw [hpipe'.stop, hpipe.stop]
      omega
  · intro t u htu
    have hoffset := htu.offset
    have hstop := htu.stop
    exact ⟨htu.kind, htu.text, by omega, by omega⟩
  · have hlength : (piped a tail).length = a.length + 2 + tail.length := by
      simp [piped]
      omega
    intro t ht
    rcases List.mem_cons.1 ht with rfl | ht
    · rw [hpipe.kind, hpipe.offset, hpipe.stop, hlength]
      exact ⟨by decide, Nat.le_refl _, by omega, by omega⟩
    · obtain ⟨hkind, hafter, hoffset, hstop⟩ := hstands t ht
      exact ⟨hkind, by omega, by omega, by omega⟩

/-- A text without faults that is one expression, with semicolons at most before it. -/
structure IsExpression (text : Bytes) (read : Tokens) (node : Node) : Prop where
  tokens : tokenize text = .ok read
  sound : read.diagnostics = []
  reads : Reads text read [node]
  form : node.form = .expressionStatement
  pending : Pending (start text read)

/-- Where a text that goes on with a pipe stands when its expression has been read. -/
theorem IsExpression.exists_tip {read : Tokens} {node : Node} (h : IsExpression a read node)
    (tail : Bytes) {pipe : Token} {ts : List Token} (hpipe : pipe.kind = .pipe)
    (htokens : r.tokens = read.tokens ++ pipe :: ts) (hending : r.ending.kind = .endOfInput) :
    ∃ (F : Frame) (x : Node) (span : Span) (first : Token)
      (tip : F.Tip (.forTokens r.tokens.length) (2 * r.tokens.length + 1) read.tokens.length
        (start (piped a tail) r)),
      F.rest = pipe :: ts ∧ F.long = piped a tail ∧
      node = .mk .none .expressionStatement span first [x.inSlot .expression] ∧
      x.Like tip.source := by
  let F : Frame := .atStart a (lineFeed :: byteOf '|' :: tail) (pipe :: ts)
    fun t ht => by cases ht; exact .inr hpipe
  have hlength : r.tokens.length = read.tokens.length + (ts.length + 1) := by
    rw [htokens, List.length_append, List.length_cons]
  have halike : F.Alike (start a read) (start (piped a tail) r) :=
    F.alike_start h.tokens rfl rfl ⟨read.tokens, htokens, same_self _⟩ hending rfl ⟨rfl, rfl⟩
  have G := grammars_reachIn F (2 * read.tokens.length + 1) (2 * r.tokens.length + 1)
  have hcount : (start a read).tokens.length = read.tokens.length := rfl
  obtain ⟨x, span, first, tip, hnode, hlike⟩ := statements_open G ⟨rfl, rfl⟩ h.form
    (2 * read.tokens.length + 1) (2 * r.tokens.length + 1) (start a read) _ halike (by omega)
    (by omega) h.pending h.reads.2 h.reads.1
  exact ⟨F, x, span, first, tip, rfl, rfl, hnode, hlike⟩

/-- What follows the pipe after one text is read alike after another. -/
theorem reads_piped {node node' whole : Node} (h : IsExpression a ra node)
    (h' : IsExpression a' ra' node') (hread : tokenize (piped a tail) = .ok r)
    (hsound : r.diagnostics = []) (hwhole : Reads (piped a tail) r [whole]) :
    ∃ (r' : Tokens) (whole' x x' base base' : Node) (span span' : Span) (first first' : Token),
      tokenize (piped a' tail) = .ok r' ∧ r'.diagnostics = [] ∧
      Reads (piped a' tail) r' [whole'] ∧
      node = .mk .none .expressionStatement span first [x.inSlot .expression] ∧ x.Like base ∧
      node' = .mk .none .expressionStatement span' first' [x'.inSlot .expression] ∧
      x'.Like base' ∧ Node.StackedStatements base base' whole whole' := by
  obtain ⟨r', pipe, pipe', ts, ts', hread', hsound', hending', htokens, htokens', hpipe, hsame,
    hinside⟩ := tokenize_piped h.tokens h.sound h'.tokens h'.sound hread hsound
  obtain ⟨-, hending, -, -⟩ := Tokens.stands_readFrom (Nat.zero_le _) hread
  have hpipe' : pipe'.kind = .pipe := by
    obtain ⟨hfirst, -⟩ := List.forall₂_cons.1 hsame
    exact hfirst.kind.trans hpipe
  obtain ⟨F, x, span, first, tip, hrest, hlong, hnode, hlike⟩ :=
    h.exists_tip tail hpipe htokens hending
  obtain ⟨F', x', span', first', tip', hrest', hlong', hnode', hlike'⟩ :=
    h'.exists_tip tail hpipe' htokens' hending'
  let E : Frame := .atEnd (a ++ [lineFeed]) (a' ++ [lineFeed]) (byteOf '|' :: tail)
  have hcount : tip.here.tokens.length = ts.length + 1 := by
    rw [tip.tokens, hrest, List.length_cons]
  have hcount' : ts'.length = ts.length := by simpa using hsame.length_eq.symm
  have halike : E.Alike tip.here tip'.here := by
    refine ⟨?_, ?_, ⟨pipe' :: ts', ?_, ?_⟩, ?_, tip.ending, tip'.ending, ?_, tip.clean, tip'.clean.2, tip'.clean.1⟩
    · rw [tip.text, hlong]
      simp [E, atEnd, piped]
    · rw [tip'.text, hlong']
      simp [E, atEnd, piped]
    · rw [tip'.tokens, hrest']
      simp [E, atEnd]
    · rw [tip.tokens, hrest]
      simpa [E, atEnd] using hsame
    · rw [tip.tokens, hrest]
      simpa [E, atEnd, piped] using hinside
    · rw [tip.depth, tip'.depth]
      rfl
  have hcurrent : tip.here.current.kind = .pipe := by
    rw [ParserState.current, tip.tokens, hrest]
    exact hpipe
  have hlength : r'.tokens.length = ra'.tokens.length + (ts'.length + 1) := by
    rw [htokens', List.length_append, List.length_cons]
  have hoperators : 2 * r'.tokens.length + 1 ≤ tip'.operators + ra'.tokens.length :=
    tip'.operators_left
  have hstatements := tip'.statements_left
  have G := grammars_reachIn E (2 * r.tokens.length + 1) (2 * r'.tokens.length + 1)
  obtain ⟨whole', v, hstatements', hclean, hstacked⟩ := statements_tips tip tip' G ⟨rfl, rfl⟩ rfl halike
    (by omega) hcurrent (by omega) (by omega) hwhole.2 hwhole.1
  exact ⟨r', whole', x, x', tip.source, tip'.source, span, span', first, first', hread', hsound',
    ⟨congrArg Prod.fst hstatements', by rw [statementsOf, hstatements']; exact hclean⟩, hnode, hlike,
    hnode', hlike', hstacked⟩

end Texts
end KustoFacts
