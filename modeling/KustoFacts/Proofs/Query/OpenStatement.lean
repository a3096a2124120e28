import KustoFacts.Proofs.Query.Sequence

/-!
    Statements that stay open. A text that is one expression is read to its end; a longer text, which
    goes on with a pipe there, has by then read a like expression and is about to read operators on
    top of it. `Frame.Tip` says where it stands. -/

namespace KustoFacts

open KustoFacts.Parser

/-! ### What kind of statement is read -/

/-- Whatever a step returns has a property. -/
def Parser.Returns {α : Type} (p : Parser α) (Q : α → Prop) : Prop :=
  ∀ s a, (p.run s).1 = some a → Q a

namespace Parser.Returns

variable {α β : Type} {p : Parser α} {f : α → Parser β} {Q : β → Prop} {g : Grammar}

theorem after (k : ∀ a, Returns (f a) Q) : Returns (p >>= f) Q := by
  intro s b hb
  rw [run_bind] at hb
  rcases hr : p.run s with ⟨_ | a, t⟩ <;> rw [hr] at hb
  · cases hb
  · exact k a t b hb

theorem build {first : Token} {form : Form} {children : List Node} :
    Returns (Parser.build first form children) (·.form = form) := by
  intro s n hn
  cases hn
  rfl

theorem build_ne {first : Token} {form form' : Form} {children : List Node} (h : form ≠ form') :
    Returns (Parser.build first form children) (·.form ≠ form') := by
  intro s n hn
  rw [build s n hn]
  exact h

theorem letStatement : Returns (Parser.letStatement g) (·.form ≠ .expressionStatement) := by
  refine .after fun first => .after fun _ => .after fun declared => .after fun _ => ?_
  refine .after ?_
  intro starts
  split
  · exact .after fun value => build_ne nofun
  · exact .after fun value => build_ne nofun

theorem setStatement : Returns (Parser.setStatement g) (·.form ≠ .expressionStatement) := by
  refine .after fun first => .after fun _ => .after fun option => .after fun _ => ?_
  exact .after fun name => .after fun given => build_ne nofun

theorem declareStatement : Returns (Parser.declareStatement g) (·.form ≠ .expressionStatement) := by
  refine .after fun first => .after fun _ => .after fun _ => ?_
  exact .after fun params => build_ne nofun

theorem aliasStatement : Returns (Parser.aliasStatement g) (·.form ≠ .expressionStatement) := by
  refine .after fun first => .after fun _ => .after fun _ => ?_
  exact .after fun declared => .after fun _ => .after fun value => build_ne nofun

end Parser.Returns

namespace Frame

variable {F : Frame} {steps n : Nat} {g g' : Grammar} {s u t : ParserState} {node : Node}

/-- Where the short text has an expression for a statement, so has the long one. -/
theorem statement_expression (h : F.Alike s u) (hs : s.tokens ≠ [])
    (hrun : (statement g).run s = (some node, t)) (hform : node.form = .expressionStatement) :
    (statement g).run s = (expressionStatement g s.current).run s ∧
      ∀ g', (statement g').run u = (expressionStatement g' u.current).run u := by
  have hnext := h.look_next hs
  have hnextWord (word : Bytes) : u.next.isWord word = s.next.isWord word :=
    ((h.advance hs (Nat.le_refl _)).isWord_eq word).symm
  simp only [statement, run_current_bind, run_peek_bind, ← h.isWord_eq, hnextWord,
    hnext.decide_kind (k := .word) rfl, hnext.decide_kind (k := .leftBracket) rfl] at hrun ⊢
  have hresult {p : Parser Node} (hp : Returns p (·.form ≠ .expressionStatement))
      (hrun : p.run s = (some node, t)) : False := hp s node (by rw [hrun]) hform
  split at hrun
  · exact (hresult .letStatement hrun).elim
  rename_i hlet
  split at hrun
  · exact (hresult .setStatement hrun).elim
  rename_i hset
  split at hrun
  · exact (hresult .declareStatement hrun).elim
  rename_i hdeclare
  split at hrun
  · exact (hresult .aliasStatement hrun).elim
  rename_i halias
  simp only [if_neg hlet, if_neg hset, if_neg hdeclare, if_neg halias, implies_true, and_self]

/-- The short text reads its operators to the end; the long one has put like operators on a like
    source and goes on from there. -/
theorem pipes_follow (G : F.Grammars steps g g') {first first' : Token}
    (hf : first.outline = first'.outline) :
    ∀ (bound bound' : Nat) (x y : Node) (s u : ParserState), F.Touching n s u → 2 * n ≤ steps →
      x.Like y → s.tokens.length ≤ bound' → (rounds (pipeRound g first) bound x s).2.Clean →
      (rounds (pipeRound g first) bound x s).2.tokens = [] →
      ∃ x' y' t v rest, rounds (pipeRound g first) bound x s = (some x', t) ∧
        rounds (pipeRound g' first') bound' y u = rounds (pipeRound g' first') rest y' v ∧
        x'.Like y' ∧ F.Alike t v ∧ t.tokens = [] ∧ bound' ≤ rest + s.tokens.length := by
  intro bound
  induction bound with
  | zero =>
    intro bound' x y s u _ _ _ _ hc _
    exact absurd hc s.not_clean_reportNesting
  | succ bound ih =>
    intro bound' x y s u h hn hxy hb hc hnil
    rw [rounds_succ] at hc hnil ⊢
    by_cases hpipe : s.current.kind = .pipe
    · have lt := h.fewer
      have hs : s.tokens ≠ [] := ParserState.tokens_ne_nil h.ending (by rw [hpipe]; decide)
      have hpos := List.length_pos_iff.2 hs
      obtain ⟨bound', rfl⟩ : ∃ m, bound' = m + 1 := ⟨bound' - 1, by omega⟩
      have agrees : F.Agrees .anywhere (F.Rounds Node.Like (fun _ _ _ _ => False) s.tokens.length)
          ((pipeRound g first x).run s) ((pipeRound g' first' y).run u) := by
        refine agrees_pipeRound G h.toAlike (by omega) hpipe ?_
        intro op op' span span' hop
        exact Node.like_mk hf (.cons (hxy.inSlot _) (.cons (hop.inSlot _) .nil))
      have honest := (pipeRound g first x).honest s
      rcases hr : (pipeRound g first x).run s with ⟨_ | x1 | x1, t1⟩ <;>
        rw [hr] at hc hnil agrees honest
      · exact absurd hc (honest rfl)
      · obtain ⟨r, r', hr1, hr1', hround⟩ :=
          agrees ((forward_rounds _ bound x1 t1).clean hc) trivial
        cases hr1
        rcases hr' : (pipeRound g' first' y).run u with ⟨_ | y1 | y1, v1⟩ <;>
          rw [hr'] at hr1' hround <;> cases hr1'
        · obtain ⟨hxy1, h1⟩ := hround
          have l1 : t1.tokens.length < s.tokens.length := h1.fewer
          obtain ⟨x', y', t, v, rest, hshort, hlong, hlike, hend, hempty, hrest⟩ :=
            ih bound' x1 y1 t1 v1 (h1.mono (Nat.le_of_lt lt)) hn hxy1 (by omega) hc hnil
          refine ⟨x', y', t, v, rest, hshort, ?_, hlike, hend, hempty, by omega⟩
          rw [rounds_succ, hr']
          exact hlong
        · exact hround.elim
      · obtain ⟨r, r', hr1, hr1', hround⟩ := agrees hc trivial
        cases hr1
        rcases r' with y1 | y1 <;> exact hround.elim
    · rw [pipeRound_done hpipe] at hc hnil ⊢
      exact ⟨x, y, s, u, bound', rfl, rfl, hxy, h.toAlike, hnil, Nat.le_add_right _ _⟩

/-! ### Open statements -/

/-- Tokens are left of which the last is no semicolon. -/
def Pending (s : ParserState) : Prop := ∃ t, s.tokens.getLast? = some t ∧ t.kind ≠ .semicolon

theorem Pending.advance (h : Pending s) (hs : s.current.kind = .semicolon) :
    Pending s.advance := by
  obtain ⟨t, ht, hk⟩ := h
  rw [ParserState.current] at hs
  rcases htokens : s.tokens with _ | ⟨t', _ | ⟨t'', ts⟩⟩ <;> rw [htokens] at ht hs
  · cases ht
  · cases ht
    exact absurd hs hk
  · refine ⟨t, ?_, hk⟩
    rw [ParserState.advance, htokens, List.tail_cons]
    exact ht

theorem Pending.ne_nil (h : Pending s) : s.tokens ≠ [] := by
  obtain ⟨t, ht, -⟩ := h
  intro hs
  rw [hs] at ht
  cases ht

/-- What is pending stays pending until all is read. -/
theorem Pending.forward (h : Pending s) (k : s.Forward t) (ht : t.tokens ≠ []) : Pending t := by
  obtain ⟨last, hlast, hk⟩ := h
  obtain ⟨front, hfront⟩ := k.tokens
  refine ⟨last, ?_, hk⟩
  rw [← hlast, ← hfront, List.getLast?_append_of_ne_nil _ ht]

/-- Statements are only added, and one is added when some are pending. -/
theorem statements_extends : ∀ (bound : Nat) (found : List Node) (s : ParserState),
    s.ending.kind = .endOfInput → (∀ t ∈ s.tokens, t.kind ≠ .endOfInput) →
    (statements g bound found s).2.Clean →
    ∃ news, (statements g bound found s).1 = some (found.reverse ++ news) ∧
      (Pending s → news ≠ []) := by
  intro bound
  induction bound with
  | zero =>
    intro found s _ _ hc
    exact absurd hc s.not_clean_reportNesting
  | succ bound ih =>
    intro found s he hk hc
    by_cases hs : s.tokens = []
    · refine ⟨[], ?_, fun hpending => absurd hs hpending.ne_nil⟩
      rw [statements_end (by rw [ParserState.current, hs]; exact he), List.append_nil]
    have hend : s.current.kind ≠ .endOfInput := by
      rcases htokens : s.tokens with _ | ⟨t, ts⟩
      · exact absurd htokens hs
      · rw [ParserState.current, htokens]
        exact hk t (by rw [htokens]; exact List.mem_cons_self)
    by_cases hsemi : s.current.kind = .semicolon
    · rw [statements_again (statementRound_semicolon hsemi (by decide))] at hc ⊢
      have hk' : ∀ t ∈ s.advance.tokens, t.kind ≠ .endOfInput := by
        intro t ht
        exact hk t (List.mem_of_mem_tail ht)
      obtain ⟨news, hnews, hpending⟩ := ih found s.advance he hk' hc
      exact ⟨news, hnews, fun h => hpending (h.advance hsemi)⟩
    · obtain ⟨node, t, hrun, ht, hends⟩ :=
        statement_of_clean hend hend hsemi (clean_statementRound hc)
      have hforward := (statement g).forward s
      rw [hrun] at hforward
      rw [statements_again (statementRound_statement hend hend hsemi hrun ht hends)] at hc ⊢
      have hk' : ∀ t' ∈ t.tokens, t'.kind ≠ .endOfInput := by
        intro t' ht'
        exact hk t' (hforward.tokens.subset ht')
      obtain ⟨news, hnews, -⟩ := ih (node :: found) t (hforward.ending ▸ he) hk' hc
      refine ⟨node :: news, ?_, fun _ => List.cons_ne_nil _ _⟩
      rw [hnews, List.reverse_cons, List.append_assoc, List.singleton_append]

/-- The head of an expression is read alike, whatever the long text goes on with. -/
theorem pipeExpression_head (G : F.Grammars steps g g') (h : F.Alike s u)
    (hn : 2 * s.tokens.length + 1 ≤ steps) (hc : ((pipeExpression g).run s).2.Clean) :
    ∃ x y t v, (pipeExpression g).run s = (pipes g s.current x).run t ∧
      (pipeExpression g').run u = (pipes g' u.current y).run v ∧
      F.Tree s.tokens.length x y t v := by
  have key {p p' : Parser Node}
      (agrees : F.Agrees .anywhere (F.Tree s.tokens.length) (p.run s) (p'.run u))
      (hc : ((p >>= pipes g s.current).run s).2.Clean) :
      ∃ x y t v, (p >>= pipes g s.current).run s = (pipes g s.current x).run t ∧
        (p' >>= pipes g' u.current).run u = (pipes g' u.current y).run v ∧
        F.Tree s.tokens.length x y t v := by
    have hp : (p.run s).2.Clean := not_imp_not.1 not_clean_bind hc
    obtain ⟨x, y, hx, hy, htree⟩ := agrees hp trivial
    rw [run_bind, run_bind]
    rcases hr : p.run s with ⟨x', t⟩
    rcases hr' : p'.run u with ⟨y', v⟩
    rw [hr] at hx htree
    rw [hr'] at hy htree
    cases hx
    cases hy
    exact ⟨x, y, t, v, rfl, rfl, htree⟩
  simp only [pipeExpression, run_current_bind, run_peek_bind, ← h.startsLeading_eq] at hc ⊢
  split
  · rename_i hleading
    rw [if_pos hleading] at hc
    exact key (agrees_leading G h (h.ne_nil_of_startsLeading hleading) (by omega)) hc
  · rename_i hleading
    rw [if_neg hleading] at hc
    exact key (agrees_expression G h hn) hc

theorem run_expressionStatement {first : Token}
    (h : (expressionStatement g first).run s = (some node, t)) :
    ∃ x, (pipeExpression g).run s = (some x, t) ∧
      node = .mk .none .expressionStatement (t.spanFrom first) first [x.inSlot .expression] := by
  rw [expressionStatement, run_bind] at h
  rcases hr : (pipeExpression g).run s with ⟨_ | x, t1⟩ <;> rw [hr] at h <;> cases h
  exact ⟨x, rfl, rfl⟩

/-- Where the long text stands, when its statements are read from `u` on, once the short text of
    `size` tokens has been read as one expression: its statement is open, and operators on top of
    the expression are read next. -/
structure Tip (F : Frame) (g : Grammar) (bound size : Nat) (u : ParserState) where
  /-- Where the statement begins. -/
  begun : ParserState
  /-- What has been read of the statement. -/
  source : Node
  /-- Where the long text stands. -/
  here : ParserState
  /-- How many rounds are left for operators. -/
  operators : Nat
  /-- How many rounds are left for statements after this one. -/
  statements : Nat
  begun_ne_end : begun.current.kind ≠ .endOfInput
  begun_ne_semicolon : begun.current.kind ≠ .semicolon
  run_statement : (statement g).run begun =
    (loop (pipeRound g begun.current) operators source >>= fun z =>
      build begun.current .expressionStatement [z.inSlot .expression]).run here
  run_statements : Frame.statements g bound [] u = Frame.statements g (statements + 1) [] begun
  operators_left : g.bound ≤ operators + size
  statements_left : bound ≤ statements + size
  tokens : here.tokens = F.rest
  text : here.source = F.long
  ending : here.ending.kind = .endOfInput
  depth : here.depth = u.depth
  clean : here.Clean

/-- An expression that is read to the end of the short text is open in the long one. -/
theorem statement_open (G : F.Grammars steps g g') (hF : F.Fresh) (h : F.Alike s u) (hs : s.tokens ≠ [])
    (hn : 2 * s.tokens.length + 1 ≤ steps) (hsemi : s.current.kind ≠ .semicolon)
    (hrun : (statement g).run s = (some node, t)) (hform : node.form = .expressionStatement)
    (hc : t.Clean) (hnil : t.tokens = []) (bound : Nat) :
    ∃ (x : Node) (span : Span) (first : Token) (tip : F.Tip g' (bound + 1) s.tokens.length u),
      node = .mk .none .expressionStatement span first [x.inSlot .expression] ∧
      x.Like tip.source := by
  have hb := G.bound
  have hpos := List.length_pos_iff.2 hs
  have hdepth := (statement g).forward s
  rw [hrun] at hdepth
  obtain ⟨hshort, hlong⟩ := statement_expression h hs hrun hform
  rw [hshort] at hrun
  obtain ⟨x, hx, rfl⟩ := run_expressionStatement hrun
  have hexpr : ((pipeExpression g).run s).2.Clean := by rw [hx]; exact hc
  obtain ⟨x0, y0, t0, v0, hhead, hhead', hlike0, h0⟩ := pipeExpression_head G h hn hexpr
  have l0 := h0.fewer
  have hpipes : rounds (pipeRound g s.current) g.bound x0 t0 = (some x, t) := hhead.symm.trans hx
  obtain ⟨x', y, t', v, rest, hends, hgoes, hlike, hend, -, hrest⟩ :=
    pipes_follow G (h.outline hs) g.bound g'.bound x0 y0 t0 v0 h0 (by omega) hlike0 (by omega)
      (by rw [hpipes]; exact hc) (by rw [hpipes]; exact hnil)
  rw [hpipes] at hends
  cases hends
  refine ⟨x, _, _, ⟨u, y, v, rest, bound, ?_, ?_, ?_, rfl, by omega, by omega,
    hend.rest_of_nil hnil, hend.source', hend.ending', ?_, hend.clean' hF⟩, rfl, hlike⟩
  · rw [(h.same hs).kind]
    exact h.current_ne_end hs
  · rw [(h.same hs).kind]
    exact hsemi
  · rw [hlong g', expressionStatement, run_bind, run_bind, hhead', pipes]
    simp only [loop, hgoes]
  · rw [hend.depth, h.depth]
    exact hdepth.depth

/-- A text that is one expression, with semicolons at most before it, is open in the long one. -/
theorem statements_open (G : F.Grammars steps g g') (hF : F.Fresh) (hform : node.form = .expressionStatement) :
    ∀ (bound bound' : Nat) (s u : ParserState), F.Alike s u → 2 * s.tokens.length + 1 ≤ steps →
      s.tokens.length ≤ bound' → Pending s → (statements g bound [] s).2.Clean →
      (statements g bound [] s).1 = some [node] →
      ∃ (x : Node) (span : Span) (first : Token) (tip : F.Tip g' bound' s.tokens.length u),
        node = .mk .none .expressionStatement span first [x.inSlot .expression] ∧
        x.Like tip.source := by
  intro bound
  induction bound with
  | zero =>
    intro bound' s u _ _ _ _ hc _
    exact absurd hc s.not_clean_reportNesting
  | succ bound ih =>
    intro bound' s u h hn hb hpending hc hnode
    have hs := hpending.ne_nil
    have hpos := List.length_pos_iff.2 hs
    have hend := h.current_ne_end hs
    obtain ⟨bound', rfl⟩ : ∃ m, bound' = m + 1 := ⟨bound' - 1, by omega⟩
    by_cases hsemi : s.current.kind = .semicolon
    · have hsemi' : u.current.kind = .semicolon := (h.same hs).kind.trans hsemi
      rw [statements_again (statementRound_semicolon hsemi (by decide))] at hc hnode
      have h1 := h.advance hs (Nat.le_refl _)
      have l1 := h1.fewer
      obtain ⟨x, span, first, tip, hnode, hlike⟩ := ih bound' s.advance u.advance h1.toAlike
        (by omega) (by omega) (hpending.advance hsemi) hc hnode
      have hoperators := tip.operators_left
      have hstatements := tip.statements_left
      refine ⟨x, span, first, { tip with
        run_statements := ?_
        operators_left := by omega
        statements_left := by omega }, hnode, hlike⟩
      rw [statements_again (statementRound_semicolon hsemi' (by decide))]
      exact tip.run_statements
    · obtain ⟨node', t, hrun, ht, hends⟩ :=
        statement_of_clean hend hend hsemi (clean_statementRound hc)
      have hforward := (statement g).forward s
      rw [hrun] at hforward
      rw [statements_again (statementRound_statement hend hend hsemi hrun ht hends)] at hc hnode
      have hk : ∀ t' ∈ t.tokens, t'.kind ≠ .endOfInput := by
        intro t' ht'
        exact (h.inside t' (hforward.tokens.subset ht')).1
      obtain ⟨news, hnews, hmore⟩ :=
        statements_extends bound [node'] t (hforward.ending ▸ h.ending) hk hc
      -- one statement is all there is, so that nothing can be pending after it
      rw [hnews] at hnode
      obtain ⟨rfl, rfl⟩ : node' = node ∧ news = [] := by simpa using hnode
      have hnil : t.tokens = [] := by
        by_contra hne
        exact hmore (hpending.forward hforward hne) rfl
      exact statement_open G hF h hs hn hsemi hrun hform ht hnil bound'

end Frame
end KustoFacts
