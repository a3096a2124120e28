import KustoFacts.Proofs.Query.Agreement.Primary
import KustoFacts.Proofs.Query.Leads

/-!
    Statements agree. A statement may end in a pipe, so it agrees unless the long text goes on with
    one; statements in braces agree before the end of the short text, which the closing brace keeps
    to. -/

namespace KustoFacts.Frame

open KustoFacts.Parser

variable {F : Frame} {steps n : Nat} {g g' : Grammar} {limit : Limit} {s u : ParserState}

theorem agrees_pipeExpression (G : F.Grammars steps g g') (h : F.Alike s u)
    (hn : 2 * s.tokens.length + 1 ≤ steps) (hl : limit ≠ .anywhere) :
    F.Agrees limit (F.Tree s.tokens.length) ((pipeExpression g).run s)
      ((pipeExpression g').run u) := by
  simp only [pipeExpression, run_current_bind, run_peek_bind, ← h.startsLeading_eq]
  split
  · rename_i hleading
    have hs := h.ne_nil_of_startsLeading hleading
    refine .bind (agrees_leading G h hs (by omega)) ?_
    rintro x y t v ⟨hxy, ht⟩
    exact agrees_pipes G ht (by omega) hl (h.outline hs) hxy
  · refine .bind (agrees_expression G h hn) ?_
    rintro x y t v ⟨hxy, ht⟩
    have hs : s.tokens ≠ [] := List.ne_nil_of_length_pos (Nat.zero_lt_of_lt ht.fewer)
    exact agrees_pipes G ht (by omega) hl (h.outline hs) hxy

/-- Equal names with like declarations, and touching states. -/
def Named (F : Frame) (n : Nat) (x y : Bytes × Node) (s u : ParserState) : Prop :=
  x.1 = y.1 ∧ F.Tree n x.2 y.2 s u

theorem agrees_nameDeclaration (h : F.Alike s u) :
    F.Agrees limit (F.Named s.tokens.length) (nameDeclaration.run s) (nameDeclaration.run u) := by
  by_cases hs : s.tokens = []
  · simp only [nameDeclaration, run_current_bind, h.current_of_nil hs, reduceCtorEq, if_false,
      run_peek_bind, run_peekSecond_bind, decide_false, Bool.false_and, Bool.false_eq_true]
    exact .of_not_clean (s.not_clean_report _)
  have same := h.same hs
  have h1 := h.advance hs (Nat.le_refl _)
  simp only [nameDeclaration, run_current_bind, same.kind, same.text]
  split
  · simp only [run_advance_bind, run_build_bind]
    exact .ret ⟨rfl, Node.like_mk (h.outline hs) .nil, h1⟩
  simp only [run_peek_bind, run_peekSecond_bind, (h.look_next hs).decide_kind (k := .string) rfl]
  by_cases hstring : s.next.kind = .string
  · have hs1 : s.advance.tokens ≠ [] := h.tail_ne_nil (by rw [hstring]; decide)
    have h2 := h1.advance hs1 (Nat.le_of_lt h1.fewer)
    have hthird := h.look_afterNext hs1
    rw [hthird.decide_kind (k := .rightBracket) rfl]
    split
    · rename_i hbracket
      simp only [Bool.and_eq_true, decide_eq_true_eq] at hbracket
      have hs2 := h2.ne_nil_of_kind (k := .rightBracket) rfl hbracket.2
      simp only [run_advance_bind, run_current_bind, run_build_bind, (h1.same hs1).text]
      exact .ret ⟨rfl, Node.like_mk (h.outline hs) .nil, h2.advance hs2 (Nat.le_of_lt h2.fewer)⟩
    · exact .of_not_clean (s.not_clean_report _)
  · simp only [hstring, decide_false, Bool.and_false, Bool.false_and, Bool.false_eq_true, if_false]
    exact .of_not_clean (s.not_clean_report _)

/-! ### Parameters -/

theorem agrees_closeParens (G : F.Grammars steps g g') (h : F.Touching n s u)
    (hn : 2 * n ≤ steps) :
    F.Agrees limit (F.Equal n) ((closeParens g).run s) ((closeParens g').run u) := by
  have hb := G.bound
  refine agrees_loop (I := Eq) h (by omega) rfl ?_
  intro depth depth' t v hdepth ht
  subst hdepth
  have lt := ht.fewer
  rw [closeRound, run_current_bind, run_current_bind]
  by_cases hs : t.tokens = []
  · rw [ht.current_of_nil hs]
    exact .of_not_clean (t.not_clean_report _)
  have h1 := ht.advance hs (Nat.le_refl _)
  rw [(ht.same hs).kind]
  split
  · exact .of_not_clean (t.not_clean_report _)
  · exact .ret ⟨rfl, h1⟩
  · simp only [run_advance_bind]
    split
    · exact .ret ⟨rfl, h1.mono (Nat.le_of_lt lt)⟩
    · exact .ret ⟨rfl, h1⟩
  · exact .ret ⟨rfl, h1⟩

theorem agrees_parameterType (G : F.Grammars steps g g') (h : F.Touching n s u)
    (hn : 2 * n ≤ steps) :
    F.Agrees limit (F.Equal n) ((parameterType g).run s) ((parameterType g').run u) := by
  have lt := h.fewer
  rw [parameterType, parameterType, run_current_bind, run_current_bind]
  by_cases hparen : s.current.kind = .leftParen
  · have hs := h.ne_nil_of_kind rfl hparen
    have h1 := h.advance hs (Nat.le_of_lt lt)
    rw [if_pos hparen, if_pos ((h.kind_iff rfl).1 hparen)]
    simp only [run_advance_bind]
    refine .bind (agrees_closeParens G h1 hn) ?_
    rintro _ _ t v ⟨_, ht⟩
    rw [run_state_bind, run_state_bind, ht.source, ht.source',
      slice_eq (h.inside_current hs).1 ht.within (h.same hs).offset ht.joined]
    exact .ret ⟨rfl, ht⟩
  · rw [if_neg hparen, if_neg (mt (h.kind_iff rfl).2 hparen)]
    refine .bind (agrees_typeName h.toAlike) ?_
    rintro x y t v ⟨hxy, ht⟩
    subst hxy
    exact .ret ⟨rfl, ht.mono (Nat.le_of_lt lt)⟩

theorem agrees_parameter (G : F.Grammars steps g g') (h : F.Alike s u)
    (hn : 2 * s.tokens.length ≤ steps) :
    F.Agrees limit (F.Tree s.tokens.length) ((parameter g).run s) ((parameter g').run u) := by
  rw [parameter, parameter, run_current_bind, run_current_bind]
  refine agrees_expect h rfl ?_
  intro hs h1
  rw [(h.same hs).text]
  refine agrees_expect h1.toAlike rfl ?_
  intro _ h2
  have h2' := h2.mono (Nat.le_of_lt h1.fewer)
  refine .bind (agrees_parameterType G h2' hn) ?_
  rintro type type' t3 v3 ⟨htype, h3⟩
  subst htype
  refine .bind (agrees_assigned G h3 hn) ?_
  rintro given given' t4 v4 ⟨hgiven, h4⟩
  exact agrees_build h4 (h.outline hs) hgiven

theorem agrees_parameterList (G : F.Grammars steps g g') (h : F.Alike s u)
    (hn : 2 * s.tokens.length ≤ steps) :
    F.Agrees limit (F.Trees s.tokens.length) ((parameterList g).run s)
      ((parameterList g').run u) := by
  have hb := G.bound
  refine agrees_expect h rfl ?_
  intro _ h1
  refine .bind (agrees_itemsUntil rfl h1 (by omega) ?_) ?_
  · intro t v ht
    have := ht.fewer
    exact agrees_parameter G ht.toAlike (by omega)
  rintro params params' t2 v2 ⟨hparams, h2⟩
  refine agrees_expect h2.toAlike rfl ?_
  intro _ h3
  exact .ret ⟨hparams.inSlot _, h3.mono (Nat.le_of_lt h2.fewer)⟩

/-! ### Single statements -/

theorem agrees_functionDeclaration (G : F.Grammars steps g g') (h : F.Touching n s u)
    (hn : 2 * n ≤ steps) :
    F.Agrees limit (F.Tree n) ((functionDeclaration g).run s) ((functionDeclaration g').run u) := by
  have lt := h.fewer
  rw [functionDeclaration, functionDeclaration, run_current_bind, run_current_bind]
  refine .bind (agrees_acceptWord h _) ?_
  rintro view view' t1 v1 ⟨hview, h1⟩
  subst hview
  have l1 := h1.fewer
  refine .bind (agrees_parameterList G h1.toAlike (by omega)) ?_
  rintro params params' t2 v2 ⟨hparams, h2⟩
  have l2 := h2.fewer
  refine agrees_expect h2.toAlike rfl ?_
  intro _ h3
  have l3 := h3.fewer
  refine .bind (G.braced h3 (by omega)) ?_
  rintro body body' t4 v4 ⟨hbody, h4⟩
  have l4 := h4.fewer
  have hs : s.tokens ≠ [] := List.ne_nil_of_length_pos (by omega)
  refine agrees_build (h4.mono (by omega)) (h.outline hs) ?_
  exact hparams.append (.cons (hbody.inSlot _) .nil)

theorem agrees_letStatement (G : F.Grammars steps g g') (h : F.Alike s u) (hs : s.tokens ≠ [])
    (hn : 2 * s.tokens.length ≤ steps) (hl : limit ≠ .anywhere) :
    F.Agrees limit (F.Tree s.tokens.length) ((letStatement g).run s) ((letStatement g').run u) := by
  have h1 := h.advance hs (Nat.le_refl _)
  have l1 := h1.fewer
  simp only [letStatement, run_current_bind, run_advance_bind]
  refine .bind (agrees_nameDeclaration h1.toAlike) ?_
  rintro x y t2 v2 ⟨hname, hdecl, h2⟩
  obtain ⟨name, declared⟩ := x
  obtain ⟨name', declared'⟩ := y
  simp only at hname hdecl ⊢
  subst hname
  have l2 := h2.fewer
  refine agrees_expect h2.toAlike rfl ?_
  intro _ h3
  have h3' : F.Touching s.tokens.length t2.advance v2.advance := h3.mono (by omega)
  have l3 := h3'.fewer
  obtain ⟨x, hx, hy⟩ := h3.startsFunction_eq
  rw [run_bind, run_bind, hx, hy]
  cases x with
  | true =>
    refine .bind (agrees_functionDeclaration G h3' hn) ?_
    rintro x y t4 v4 ⟨hxy, h4⟩
    exact agrees_build h4 (h.outline hs) (.cons (hdecl.inSlot _) (.cons (hxy.inSlot _) .nil))
  | false =>
    refine .bind (agrees_pipeExpression G h3.toAlike (by omega) hl) ?_
    rintro x y t4 v4 ⟨hxy, h4⟩
    exact agrees_build (h4.mono (Nat.le_of_lt l3)) (h.outline hs)
      (.cons (hdecl.inSlot _) (.cons (hxy.inSlot _) .nil))

theorem agrees_setStatement (G : F.Grammars steps g g') (h : F.Alike s u)
    (hs : s.tokens.tail ≠ []) (hn : 2 * s.tokens.length ≤ steps) :
    F.Agrees limit (F.Tree s.tokens.length) ((setStatement g).run s) ((setStatement g').run u) := by
  have hb := G.bound
  have hs0 : s.tokens ≠ [] := fun h0 => hs (by rw [h0]; rfl)
  have h1 := h.advance hs0 (Nat.le_refl _)
  have h2 := h1.advance hs (Nat.le_of_lt h1.fewer)
  simp only [setStatement, run_current_bind, run_advance_bind, (h1.same hs).text]
  refine .bind (agrees_dottedName h2 (by omega)) ?_
  rintro name name' t3 v3 ⟨hname, h3⟩
  subst hname
  refine .bind (agrees_assigned G h3 hn) ?_
  rintro given given' t4 v4 ⟨hgiven, h4⟩
  exact agrees_build h4 (h.outline hs0) hgiven

theorem agrees_declareStatement (G : F.Grammars steps g g') (h : F.Alike s u)
    (hs : s.tokens.tail ≠ []) (hn : 2 * s.tokens.length ≤ steps) :
    F.Agrees limit (F.Tree s.tokens.length) ((declareStatement g).run s)
      ((declareStatement g').run u) := by
  have hs0 : s.tokens ≠ [] := fun h0 => hs (by rw [h0]; rfl)
  have h1 := h.advance hs0 (Nat.le_refl _)
  have h2 := h1.advance hs (Nat.le_of_lt h1.fewer)
  simp only [declareStatement, run_current_bind, run_advance_bind]
  have l2 := h2.fewer
  refine .bind (agrees_parameterList G h2.toAlike (by omega)) ?_
  rintro params params' t3 v3 ⟨hparams, h3⟩
  exact agrees_build (h3.mono (Nat.le_of_lt l2)) (h.outline hs0) hparams

theorem agrees_aliasStatement (G : F.Grammars steps g g') (h : F.Alike s u)
    (hs : s.tokens.tail ≠ []) (hn : 2 * s.tokens.length ≤ steps) :
    F.Agrees limit (F.Tree s.tokens.length) ((aliasStatement g).run s)
      ((aliasStatement g').run u) := by
  have hs0 : s.tokens ≠ [] := fun h0 => hs (by rw [h0]; rfl)
  have h1 := h.advance hs0 (Nat.le_refl _)
  have h2 := h1.advance hs (Nat.le_of_lt h1.fewer)
  have l2 := h2.fewer
  simp only [aliasStatement, run_current_bind, run_advance_bind]
  refine .bind (agrees_nameDeclaration h2.toAlike) ?_
  rintro x y t3 v3 ⟨hname, _, h3⟩
  obtain ⟨name, declared⟩ := x
  obtain ⟨name', declared'⟩ := y
  simp only at hname ⊢
  subst hname
  have l3 := h3.fewer
  refine agrees_expect h3.toAlike rfl ?_
  intro _ h4
  have l4 := h4.fewer
  refine .bind (agrees_expression G h4.toAlike (by omega)) ?_
  rintro x y t5 v5 ⟨hxy, h5⟩
  exact agrees_build (h5.mono (by omega)) (h.outline hs0) (.cons (hxy.inSlot _) .nil)

theorem agrees_statement (G : F.Grammars steps g g') (h : F.Alike s u) (hs : s.tokens ≠ [])
    (hn : 2 * s.tokens.length + 1 ≤ steps) (hl : limit ≠ .anywhere) :
    F.Agrees limit (F.Tree s.tokens.length) ((statement g).run s) ((statement g').run u) := by
  have hnext := h.look_next hs
  have hnextWord (word : Bytes) : u.next.isWord word = s.next.isWord word :=
    ((h.advance hs (Nat.le_refl _)).isWord_eq word).symm
  simp only [statement, run_current_bind, run_peek_bind, ← h.isWord_eq, hnextWord,
    hnext.decide_kind (k := .word) rfl, hnext.decide_kind (k := .leftBracket) rfl]
  split
  · exact agrees_letStatement G h hs (by omega) hl
  split
  · rename_i hset
    simp only [Bool.and_eq_true, decide_eq_true_eq] at hset
    exact agrees_setStatement G h (h.tail_ne_nil (by rw [hset.2]; decide)) (by omega)
  split
  · rename_i hdeclare
    simp only [Token.isWord, Bool.and_eq_true, decide_eq_true_eq] at hdeclare
    exact agrees_declareStatement G h (h.tail_ne_nil (by rw [hdeclare.2.1]; decide)) (by omega)
  split
  · rename_i halias
    simp only [Token.isWord, Bool.and_eq_true, decide_eq_true_eq] at halias
    exact agrees_aliasStatement G h (h.tail_ne_nil (by rw [halias.2.1]; decide)) (by omega)
  · refine .bind (agrees_pipeExpression G h hn hl) ?_
    rintro x y t v ⟨hxy, ht⟩
    exact agrees_build ht (h.outline hs) (.cons (hxy.inSlot _) .nil)

/-! ### Queries -/

/-- A round stops at the end of the text and at the stop token. -/
theorem statementRound_stop {stop : TokenKind} {found : List Node}
    (hs : s.current.kind = .endOfInput ∨ s.current.kind = stop) :
    (statementRound g stop found).run s = (some (.done found.reverse), s) := by
  rw [statementRound, run_current_bind, if_pos (by simpa using hs)]
  rfl

/-- A round passes over a semicolon. -/
theorem statementRound_semicolon {stop : TokenKind} {found : List Node}
    (hs : s.current.kind = .semicolon) (hstop : stop ≠ .semicolon) :
    (statementRound g stop found).run s = (some (.again found), s.advance) := by
  rw [statementRound, run_current_bind, if_neg (by simp [hs, hstop.symm]), run_accept_bind,
    if_pos hs]
  rfl

/-- A round reads a statement up to its end if nothing is reported about it. -/
theorem statementRound_adds_one {stop : TokenKind} {found : List Node} {node : Node}
    {t : ParserState} (hs : s.current.kind ≠ .endOfInput) (hstop : s.current.kind ≠ stop)
    (hsemi : s.current.kind ≠ .semicolon) (hrun : (statement g).run s = (some node, t))
    (ht : t.reported.length ≤ s.reported.length) (hends : endsStatement stop t.current = true) :
    (statementRound g stop found).run s = (some (.again (node :: found)), t) := by
  rw [statementRound, run_current_bind, if_neg (by simp [hs, hstop]), run_accept_bind,
    if_neg hsemi]
  simp only [Bool.false_eq_true, if_false, run_state_bind, run_attempt_bind, hrun, gt_iff_lt,
    Nat.not_lt.2 ht, hends, Bool.not_true, run_pure, Option.toList_some, List.singleton_append]

/-- A round reads a statement up to its end if nothing has been reported at all. -/
theorem statementRound_statement {stop : TokenKind} {found : List Node} {node : Node}
    {t : ParserState} (hs : s.current.kind ≠ .endOfInput) (hstop : s.current.kind ≠ stop)
    (hsemi : s.current.kind ≠ .semicolon) (hrun : (statement g).run s = (some node, t))
    (ht : t.Clean) (hends : endsStatement stop t.current = true) :
    (statementRound g stop found).run s = (some (.again (node :: found)), t) :=
  statementRound_adds_one hs hstop hsemi hrun (by simp [ht.2]) hends

/-- What a round that reports nothing has done when it read a statement. -/
theorem statement_of_clean {stop : TokenKind} {found : List Node}
    (hs : s.current.kind ≠ .endOfInput) (hstop : s.current.kind ≠ stop)
    (hsemi : s.current.kind ≠ .semicolon)
    (hc : ((statementRound g stop found).run s).2.Clean) :
    ∃ node t, (statement g).run s = (some node, t) ∧ t.Clean ∧
      endsStatement stop t.current = true := by
  have hclean := hc
  rw [statementRound, run_current_bind, if_neg (by simp [hs, hstop]), run_accept_bind,
    if_neg hsemi] at hc
  simp only [Bool.false_eq_true, if_false, run_state_bind, run_attempt_bind] at hc
  have ht : ((statement g).run s).2.Clean := by
    refine ParserState.Forward.clean ?_ hc
    exact Parser.forward _ _
  have honest := (statement g).honest s
  rcases hrun : (statement g).run s with ⟨_ | node, t⟩ <;> rw [hrun] at hc ht honest
  · exact absurd ht (honest rfl)
  refine ⟨node, t, rfl, ht, ?_⟩
  have hreported : t.reported = [] := ht.2
  cases hends : endsStatement stop t.current with
  | true => rfl
  | false =>
    simp only [hreported, List.length_nil, gt_iff_lt, Nat.not_lt_zero, if_false, hends,
      Bool.not_false, if_true] at hc
    exact absurd hc (not_clean_bind (t.not_clean_report _))

/-- Like statements read from alike states on are spelled the same. -/
theorem copy_statement {x y : Node} {t v : ParserState} (h : F.Alike s u) (hs : s.tokens ≠ [])
    (hrun : (statement g).run s = (some x, t)) (hrun' : (statement g').run u = (some y, v))
    (hxy : x.Like y) (htv : F.Touching n t v) : F.Copy x y := by
  refine ⟨hxy, ?_⟩
  have hspan : x.span = t.spanFrom s.current := spans_statement x t hrun
  have hspan' : y.span = v.spanFrom u.current := spans_statement y v hrun'
  obtain ⟨hfrom, hstart, -⟩ := h.inside_current hs
  have hoffset := (h.same hs).offset
  have hwithin := htv.within
  have hjoined := htv.joined
  rw [Node.text, Node.text, hspan, hspan']
  exact slice_eq hfrom (Nat.max_le.2 ⟨hstart, hwithin⟩) hoffset
    (by simp only [ParserState.spanFrom]; omega)

/-- A round that does not stop adds copies of statements to whatever was found before. -/
theorem statementRound_adds (G : F.Grammars steps g g') (h : F.Alike s u) (hs : s.tokens ≠ [])
    (hn : 2 * s.tokens.length + 1 ≤ steps) (hl : limit ≠ .anywhere) {stop : TokenKind}
    (hstop : stop ≠ .semicolon) (hk : s.current.kind ≠ stop) {found : List Node}
    (hc : ((statementRound g stop found).run s).2.Clean)
    (hw : F.Within limit ((statementRound g stop found).run s).2) :
    ∃ new new' t v, (statementRound g stop found).run s = (some (.again (new ++ found)), t) ∧
      (∀ found', (statementRound g' stop found').run u = (some (.again (new' ++ found')), v)) ∧
      List.Forall₂ F.Copy new new' ∧ F.Touching s.tokens.length t v := by
  have hkind := (h.same hs).kind
  have hend := h.current_ne_end hs
  by_cases hsemi : s.current.kind = .semicolon
  · refine ⟨[], [], s.advance, u.advance, statementRound_semicolon hsemi hstop, fun _ => ?_, .nil,
      h.advance hs (Nat.le_refl _)⟩
    exact statementRound_semicolon (hkind.trans hsemi) hstop
  obtain ⟨node, t, hrun, ht, hends⟩ := statement_of_clean hend hk hsemi hc
  rw [statementRound_statement hend hk hsemi hrun ht hends] at hw ⊢
  have agrees := agrees_statement G h hs hn hl
  rw [hrun] at agrees
  obtain ⟨x, y, hx, hy, hxy, htv⟩ := agrees ht hw
  cases hx
  rcases hrun' : (statement g').run u with ⟨_ | node', v⟩ <;> rw [hrun'] at hy htv <;> cases hy
  have hends' := htv.endsStatement_of hl hw hends
  have hreported : v.reported.length ≤ u.reported.length :=
    Nat.le_of_eq (by rw [htv.kept.1, h.kept.1])
  rw [← hkind] at hend hk hsemi
  refine ⟨[node], [y], t, v, rfl, fun _ => ?_, .cons (copy_statement h hs hrun hrun' hxy htv) .nil,
    htv⟩
  exact statementRound_adds_one hend hk hsemi hrun' hreported hends'

/-- A round of reading statements agrees. -/
theorem agrees_statementRound (G : F.Grammars steps g g') (h : F.Alike s u) (hs : s.tokens ≠ [])
    (hn : 2 * s.tokens.length + 1 ≤ steps) (hl : limit ≠ .anywhere) {stop : TokenKind}
    (hstop : stop ≠ .semicolon) {found found' : List Node} (hfound : Node.LikeAll found found')
    {Q : List Node → List Node → ParserState → ParserState → Prop}
    (hQ : Q found.reverse found'.reverse s u) :
    F.Agrees limit (F.Rounds Node.LikeAll Q s.tokens.length)
      ((statementRound g stop found).run s) ((statementRound g' stop found').run u) := by
  by_cases hk : s.current.kind = stop
  · rw [statementRound_stop (.inr hk), statementRound_stop (.inr ((h.same hs).kind.trans hk))]
    exact .ret hQ
  intro hc hw
  obtain ⟨new, new', t, v, hrun, hrun', hnew, htv⟩ :=
    statementRound_adds G h hs hn hl hstop hk hc hw
  rw [hrun, hrun']
  exact ⟨_, _, rfl, rfl, (Copy.likeAll hnew).append hfound, htv⟩

/-- Statements up to a closing brace agree before the end of the short text. -/
theorem agrees_query (G : F.Grammars steps g g') (h : F.Touching n s u)
    (hn : 2 * s.tokens.length + 1 ≤ steps) :
    F.Agrees .beforeEnd (F.Tree (s.tokens.length + 1))
      ((query g .rightBrace).run s) ((query g' .rightBrace).run u) := by
  have hb := G.bound
  refine .beginning ?_
  intro hs
  have h' : F.Touching (s.tokens.length + 1) s u := { h with fewer := Nat.lt_succ_self _ }
  rw [query, query, run_current_bind, run_current_bind]
  refine .bind (agrees_nested (Q := F.Trees (s.tokens.length + 1)) h.toAlike ?_ ?_) ?_
  · rintro x y t v ⟨hxy, ht⟩
    exact ⟨hxy, { ht with depth := by simp [ht.depth] }⟩
  · refine agrees_loop (I := Node.LikeAll) h'.deeper (by omega) .nil ?_
    intro x y t v hxy ht
    have lt := ht.fewer
    refine .beginning ?_
    intro hst
    exact agrees_statementRound G ht.toAlike hst (by omega) (by decide) (by decide) hxy
      ⟨hxy.reverse, ht⟩
  · rintro x y t v ⟨hxy, ht⟩
    exact agrees_build ht (h.outline hs) (hxy.inSlot _)

end KustoFacts.Frame
