import KustoFacts.Proofs.Query.Agreement.Expression

/-!
    Operators agree. The kind of a join is the only part of a tree that is cut out of the text and
    not taken from a token; `Frame.Setting` keeps the texts of such values equal. -/

namespace KustoFacts.Frame

open KustoFacts.Parser

variable {F : Frame} {steps n : Nat} {g g' : Grammar} {limit : Limit} {s u : ParserState}

/-! ### Lists of items -/

theorem agrees_commaRound {item item' : Parser Node} {found found' : List Node}
    (hfound : Node.LikeAll found found') (h : F.Touching n s u)
    (hitem : F.Agrees limit (F.Tree s.tokens.length) (item.run s) (item'.run u)) :
    F.Agrees limit (F.Rounds Node.LikeAll (F.Trees n) s.tokens.length)
      ((commaRound item found).run s) ((commaRound item' found').run u) := by
  have lt := h.fewer
  refine .bind hitem ?_
  rintro x y t v ⟨hxy, h1⟩
  have l1 := h1.fewer
  refine agrees_accept h1.toAlike rfl (fun h2 => ?_) ?_
  · exact .ret ⟨.cons hxy hfound, h2.mono (Nat.le_of_lt l1)⟩
  · exact .ret ⟨(Node.LikeAll.cons hxy hfound).reverse, h1.mono (Nat.le_of_lt lt)⟩

theorem agrees_itemsUntil {bound bound' : Nat} {close : TokenKind} (hclose : close.isStop = false)
    {item item' : Parser Node} (h : F.Touching n s u) (hb : n ≤ bound')
    (hitem : ∀ t v, F.Touching n t v →
      F.Agrees limit (F.Tree t.tokens.length) (item.run t) (item'.run v)) :
    F.Agrees limit (F.Trees n) ((itemsUntil bound close item).run s)
      ((itemsUntil bound' close item').run u) := by
  refine agrees_loop (I := Node.LikeAll) h hb .nil ?_
  intro found found' t v hfound ht
  simp only [untilRound, run_sees_bind, ht.look.decide_kind hclose]
  split
  · exact .ret ⟨hfound.reverse, ht⟩
  · exact agrees_commaRound hfound ht (hitem t v ht)

theorem agrees_itemsByComma {bound bound' : Nat} {item item' : Parser Node}
    (h : F.Touching n s u) (hb : n ≤ bound')
    (hitem : ∀ t v, F.Touching n t v →
      F.Agrees limit (F.Tree t.tokens.length) (item.run t) (item'.run v)) :
    F.Agrees limit (F.Trees n) ((itemsByComma bound item).run s)
      ((itemsByComma bound' item').run u) :=
  agrees_loop (I := Node.LikeAll) h hb .nil fun _ _ t v hfound ht =>
    agrees_commaRound hfound ht (hitem t v ht)

theorem agrees_dottedName {bound bound' : Nat} {name : Bytes} (h : F.Touching n s u)
    (hb : n ≤ bound') :
    F.Agrees limit (F.Equal n) ((dottedName bound name).run s) ((dottedName bound' name).run u) := by
  refine agrees_loop (I := Eq) h hb rfl ?_
  intro name name' t v hname ht
  subst hname
  have lt := ht.fewer
  simp only [dottedRound, run_sees_bind, run_peek_bind, ht.look.decide_kind (k := .dot) rfl]
  by_cases hdot : t.current.kind = .dot
  · have hs := ht.ne_nil_of_kind rfl hdot
    rw [(ht.look_next hs).decide_kind (k := .word) rfl]
    split
    · rename_i hword
      simp only [Bool.and_eq_true, decide_eq_true_eq] at hword
      have h1 := ht.advance hs (Nat.le_refl _)
      have hs1 := h1.ne_nil_of_kind (k := .word) rfl hword.2
      have l1 := h1.fewer
      have htext := (h1.same hs1).text
      simp only [run_advance_bind, run_current_bind, htext]
      exact .ret ⟨rfl, h1.advance hs1 (Nat.le_of_lt l1)⟩
    · exact .ret ⟨rfl, ht⟩
  · simp only [hdot, decide_false, Bool.false_and, Bool.false_eq_true, if_false]
    exact .ret ⟨rfl, ht⟩

/-! ### Named parameters -/

/-- Like nodes with the same text, and touching states. -/
def Value (F : Frame) (n : Nat) (x y : Node) (s u : ParserState) : Prop :=
  F.Tree n x y s u ∧ x.text F.short = y.text F.long

/-- Like parameters whose values have the same text. -/
def Setting (F : Frame) (x y : Node) : Prop :=
  x.Like y ∧
    (x.child? .value).map (Node.text F.short) = (y.child? .value).map (Node.text F.long)

/-- Parameters of which each two are such, and touching states. -/
def Settings (F : Frame) (n : Nat) (xs ys : List Node) (s u : ParserState) : Prop :=
  List.Forall₂ F.Setting xs ys ∧ F.Touching n s u

theorem likeAll_of_setting {xs ys : List Node} (h : List.Forall₂ F.Setting xs ys) :
    Node.LikeAll xs ys := by
  induction h with
  | nil => exact .nil
  | cons hxy _ ih => exact .cons hxy.1 ih

theorem kindText?_eq {xs ys : List Node} (h : List.Forall₂ F.Setting xs ys) :
    kindText? F.short xs = kindText? F.long ys := by
  induction h with
  | nil => rfl
  | @cons x y xs ys hxy _ ih =>
    simp only [kindText?, Option.bind_eq_bind, Option.pure_def, List.find?_cons] at ih ⊢
    rw [hxy.1.form]
    split
    · have htext := hxy.2
      rw [Option.map_eq_bind, Option.map_eq_bind] at htext
      exact htext
    · exact ih

theorem agrees_buildValue (h : F.Touching n s u) {first first' : Token} {form : Form}
    {children children' : List Node} (same : first.Same F.a F.b first')
    (ha : F.a ≤ first.pos.offset) (hl : first.pos.offset ≤ F.short.length)
    (hc : Node.LikeAll children children') :
    F.Agrees limit (F.Value n) ((build first form children).run s)
      ((build first' form children').run u) := by
  have hf : first.outline = first'.outline := by
    rw [Token.outline, Token.outline, same.kind, same.text]
  have hj := h.joined
  have hw := h.within
  have ho := same.offset
  rw [run_build, run_build]
  refine .ret ⟨⟨Node.like_mk hf hc, h⟩, ?_⟩
  refine slice_eq ha ?_ ho ?_
  · simp only [ParserState.spanFrom, Node.span]
    omega
  · simp only [ParserState.spanFrom, Node.span]
    omega

theorem agrees_paramValue (h : F.Alike s u) :
    F.Agrees limit (F.Value s.tokens.length) (paramValue.run s) (paramValue.run u) := by
  rw [paramValue, run_current_bind, run_current_bind]
  by_cases hs : s.tokens = []
  · rw [h.current_of_nil hs]
    exact .of_not_clean (s.not_clean_report _)
  have same := h.same hs
  have inside := h.inside_current hs
  have h1 := h.advance hs (Nat.le_refl _)
  have l1 := h1.fewer
  rw [same.kind, same.text]
  split
  · simp only [run_advance_bind]
    split
    · exact agrees_buildValue h1 same inside.1 inside.2.1 .nil
    · exact agrees_buildValue h1 same inside.1 inside.2.1 .nil
  · exact agrees_buildValue h1 same inside.1 inside.2.1 .nil
  · exact agrees_buildValue h1 same inside.1 inside.2.1 .nil
  · exact agrees_buildValue h1 same inside.1 inside.2.1 .nil
  · simp only [run_peek_bind]
    by_cases hnumber : s.next.kind = .number
    · have hs1 := h1.ne_nil_of_kind (k := .number) rfl hnumber
      have h2 := h1.advance hs1 (Nat.le_of_lt l1)
      rw [if_pos hnumber, if_pos ((h.next_kind_iff hs rfl).1 hnumber)]
      simp only [run_advance_bind, run_build_bind]
      refine agrees_buildValue h2 same inside.1 inside.2.1 ?_
      exact .cons (.inSlot (Node.like_mk (h1.outline hs1) .nil) _) .nil
    · rw [if_neg hnumber]
      exact .of_not_clean (s.not_clean_report _)
  · exact .of_not_clean (s.not_clean_report _)

theorem agrees_namedParameter {bound bound' : Nat} (h : F.Alike s u) (hs : s.tokens ≠ [])
    (hb : s.tokens.length ≤ bound') :
    F.Agrees limit (fun x y t v => F.Setting x y ∧ F.Touching s.tokens.length t v)
      ((namedParameter bound).run s) ((namedParameter bound').run u) := by
  have h1 := h.advance hs (Nat.le_refl _)
  simp only [namedParameter, run_current_bind, run_advance_bind, (h.same hs).text]
  refine .bind (agrees_dottedName h1 hb) ?_
  rintro name name' t2 v2 ⟨hname, h2⟩
  subst hname
  have l2 := h2.fewer
  refine agrees_expect h2.toAlike rfl ?_
  intro _ h3
  have l3 := h3.fewer
  refine .bind (agrees_paramValue h3.toAlike) ?_
  rintro x y t4 v4 ⟨⟨hxy, h4⟩, htext⟩
  rw [run_build, run_build]
  refine .ret ⟨⟨Node.like_mk (h.outline hs) (.cons (hxy.inSlot _) .nil), ?_⟩, h4.mono (by omega)⟩
  cases x
  cases y
  exact congrArg some htext

theorem agrees_params (h : F.Touching n s u) (hb : n ≤ g'.bound) (op : Bytes) :
    F.Agrees limit (F.Settings n) ((params g op).run s) ((params g' op).run u) := by
  refine agrees_loop (I := List.Forall₂ F.Setting) h hb .nil ?_
  intro found found' t v hfound ht
  have lt := ht.fewer
  obtain ⟨x, hx, hy, hne⟩ := ht.startsParam_eq op
  simp only [paramRound, run_bind, hx, hy]
  cases x with
  | false => exact .ret ⟨List.forall₂_reverse_iff.2 hfound, ht⟩
  | true =>
    refine .bind (agrees_namedParameter ht.toAlike (hne rfl) (by omega)) ?_
    rintro x y t1 v1 ⟨hxy, h1⟩
    exact .ret ⟨.cons hxy hfound, h1⟩

/-! ### Joins, lookups and unions -/

theorem agrees_expressions (G : F.Grammars steps g g') (h : F.Touching n s u)
    (hn : 2 * n ≤ steps) :
    F.Agrees limit (F.Trees n) ((itemsByComma g.bound (expression g)).run s)
      ((itemsByComma g'.bound (expression g')).run u) := by
  have hb := G.bound
  refine agrees_itemsByComma h (by omega) ?_
  intro t v ht
  have lt := ht.fewer
  exact agrees_expression G ht.toAlike (by omega)

theorem agrees_conditions (G : F.Grammars steps g g') (h : F.Touching n s u)
    (hn : 2 * n ≤ steps) :
    F.Agrees limit (F.Trees n) ((conditions g).run s) ((conditions g').run u) := by
  simp only [conditions, run_seesWord_bind, ← h.isWord_eq]
  split
  · rename_i hw
    have h1 := h.advance (h.ne_nil_of_isWord hw) (Nat.le_of_lt h.fewer)
    rw [run_advance_bind, run_advance_bind]
    exact agrees_expressions G h1 hn
  · exact .ret ⟨.nil, h⟩

theorem agrees_joinLike (G : F.Grammars steps g g') (h : F.Alike s u) (hs : s.tokens ≠ [])
    (hn : 2 * s.tokens.length ≤ steps) (form : Option Bytes → Form) :
    F.Agrees limit (F.Tree s.tokens.length) ((joinLike g form).run s)
      ((joinLike g' form).run u) := by
  have hb := G.bound
  have h1 := h.advance hs (Nat.le_refl _)
  simp only [joinLike, run_current_bind, run_advance_bind, (h.same hs).text]
  refine .bind (agrees_params h1 (by omega) _) ?_
  rintro params params' t2 v2 ⟨hparams, h2⟩
  have l2 := h2.fewer
  refine .bind (agrees_expression G h2.toAlike (by omega)) ?_
  rintro right right' t3 v3 ⟨hright, h3⟩
  have h3' := h3.mono (Nat.le_of_lt l2)
  refine .bind (agrees_conditions G h3' hn) ?_
  rintro conds conds' t4 v4 ⟨hconds, h4⟩
  rw [run_state_bind, run_state_bind, h4.source, h4.source', ← kindText?_eq hparams]
  refine agrees_build h4 (h.outline hs) ?_
  exact .append ((likeAll_of_setting hparams).inSlot _) (.cons (hright.inSlot _) (hconds.inSlot _))

theorem agrees_union (G : F.Grammars steps g g') (h : F.Alike s u) (hs : s.tokens ≠ [])
    (hn : 2 * s.tokens.length ≤ steps) :
    F.Agrees limit (F.Tree s.tokens.length) ((Parser.union g).run s)
      ((Parser.union g').run u) := by
  have hb := G.bound
  have h1 := h.advance hs (Nat.le_refl _)
  simp only [Parser.union, run_current_bind, run_advance_bind]
  refine .bind (agrees_params h1 (by omega) _) ?_
  rintro params params' t2 v2 ⟨hparams, h2⟩
  refine .bind (agrees_expressions G h2 hn) ?_
  rintro operands operands' t3 v3 ⟨hoperands, h3⟩
  refine agrees_build h3 (h.outline hs) ?_
  exact .append ((likeAll_of_setting hparams).inSlot _) (hoperands.inSlot _)

/-! ### Pipes and subqueries -/

/-- A round that finds a pipe puts the same operator on top of both sources. -/
theorem agrees_pipeRound (G : F.Grammars steps g g') (h : F.Alike s u)
    (hn : 2 * s.tokens.length ≤ steps) (hpipe : s.current.kind = .pipe) {first first' : Token}
    {x y : Node} {I : Node → Node → Prop} {Q : Node → Node → ParserState → ParserState → Prop}
    (hI : ∀ (op op' : Node) (span span' : Span), op.Like op' →
      I (.mk .none .pipeExpression span first [x.inSlot .expression, op.inSlot .operator])
        (.mk .none .pipeExpression span' first' [y.inSlot .expression, op'.inSlot .operator])) :
    F.Agrees limit (F.Rounds I Q s.tokens.length) ((pipeRound g first x).run s)
      ((pipeRound g' first' y).run u) := by
  have hs : s.tokens ≠ [] := ParserState.tokens_ne_nil h.ending (by rw [hpipe]; decide)
  have h1 := h.advance hs (Nat.le_refl _)
  have l1 := h1.fewer
  have hpipe' : u.current.kind = .pipe := (h.same hs).kind.trans hpipe
  rw [pipeRound, pipeRound, run_accept_bind, run_accept_bind, if_pos hpipe, if_pos hpipe']
  simp only [if_true]
  refine .bind (G.pipeOperator h1.toAlike (by omega)) ?_
  rintro op op' t2 v2 ⟨hop, h2⟩
  rw [run_build_bind, run_build_bind]
  exact .ret ⟨hI op op' _ _ hop, h2.mono (Nat.le_of_lt l1)⟩

/-- A round that finds no pipe is the last. -/
theorem pipeRound_done {first : Token} {x : Node} (h : s.current.kind ≠ .pipe) :
    (pipeRound g first x).run s = (some (.done x), s) := by
  rw [pipeRound, run_accept_bind, if_neg h]
  rfl

theorem agrees_pipes (G : F.Grammars steps g g') (h : F.Touching n s u) (hn : 2 * n ≤ steps)
    (hl : limit ≠ .anywhere) {first first' : Token} {source source' : Node}
    (hf : first.outline = first'.outline) (hsource : source.Like source') :
    F.Agrees limit (F.Tree n) ((pipes g first source).run s)
      ((pipes g' first' source').run u) := by
  have hb := G.bound
  refine agrees_loop (I := Node.Like) h (by omega) hsource ?_
  intro x y t v hxy ht
  have lt := ht.fewer
  by_cases hpipe : t.current.kind = .pipe
  · refine agrees_pipeRound G ht.toAlike (by omega) hpipe ?_
    intro op op' span span' hop
    exact Node.like_mk hf (.cons (hxy.inSlot _) (.cons (hop.inSlot _) .nil))
  · intro hc hw
    rw [pipeRound_done hpipe] at hw ⊢
    rw [pipeRound_done (mt (ht.pipe_iff hl hw).2 hpipe)]
    exact ⟨_, _, rfl, rfl, hxy, ht⟩

theorem agrees_subquery (G : F.Grammars steps g g') (h : F.Alike s u) (hs : s.tokens ≠ [])
    (hn : 2 * s.tokens.length ≤ steps) :
    F.Agrees limit (F.Tree s.tokens.length) ((subquery g).run s) ((subquery g').run u) := by
  have h1 := h.advance hs (Nat.le_refl _)
  have l1 := h1.fewer
  simp only [subquery, run_current_bind, run_advance_bind]
  refine .bind (G.pipeOperator h1.toAlike (by omega)) ?_
  rintro op op' t2 v2 ⟨hop, h2⟩
  have l2 := h2.fewer
  have hs1 : s.advance.tokens ≠ [] := List.ne_nil_of_length_pos (by omega)
  rw [run_build_bind, run_build_bind]
  refine .bindExpect h2.ending (by decide) (agrees_pipes G h2 (by omega) (by decide)
    (h1.outline hs1) (Node.like_mk (h1.outline hs1) (.cons (hop.inSlot _) .nil))) ?_
  rintro inner inner' t3 v3 ⟨hinner, h3⟩
  have l3 := h3.fewer
  refine agrees_expect h3.toAlike rfl ?_
  intro _ h4
  exact agrees_build (h4.mono (by omega)) (h.outline hs) (.cons (hinner.inSlot _) .nil)

theorem agrees_block (G : F.Grammars steps g g') (h : F.Alike s u) (hs : s.tokens ≠ [])
    (hn : 2 * s.tokens.length ≤ steps) :
    F.Agrees limit (F.Tree s.tokens.length) ((block g).run s) ((block g').run u) := by
  have h1 := h.advance hs (Nat.le_refl _)
  have l1 := h1.fewer
  rw [block, block, run_advance_bind, run_advance_bind]
  exact (G.braced h1 (by omega)).grow (Nat.le_of_lt l1)

/-! ### Operators with a flat body -/

theorem agrees_schemaAndRows (G : F.Grammars steps g g') (h : F.Touching n s u)
    (hn : 2 * n ≤ steps) :
    F.Agrees limit (F.Trees n) ((schemaAndRows g).run s) ((schemaAndRows g').run u) := by
  have hb := G.bound
  have lt := h.fewer
  simp only [schemaAndRows, run_current_bind]
  refine agrees_expect h.toAlike rfl ?_
  intro hs h1
  refine .bind (agrees_itemsUntil rfl h1 (by omega) ?_) ?_
  · intro t v ht
    have := ht.fewer
    exact agrees_operatorArgument G ht.toAlike (by omega)
  rintro columns columns' t2 v2 ⟨hcolumns, h2⟩
  have l2 := h2.fewer
  refine agrees_expect h2.toAlike rfl ?_
  intro _ h3
  have l3 := h3.fewer
  simp only [run_build_bind, run_current_bind]
  refine agrees_expect h3.toAlike rfl ?_
  intro hs3 h4
  refine .bind (agrees_itemsUntil rfl h4 (by omega) ?_) ?_
  · intro t v ht
    have := ht.fewer
    exact agrees_expression G ht.toAlike (by omega)
  rintro values values' t5 v5 ⟨hvalues, h5⟩
  have l5 := h5.fewer
  refine agrees_expect h5.toAlike rfl ?_
  intro _ h6
  rw [run_build_bind, run_build_bind]
  refine .ret ⟨.cons ?_ (.cons ?_ .nil), h6.mono (by omega)⟩
  · exact Node.like_mk (h.outline hs) (hcolumns.inSlot _)
  · exact Node.like_mk (h3.outline hs3) (hvalues.inSlot _)

theorem agrees_given (G : F.Grammars steps g g') (h : F.Touching n s u) (hn : 2 * n ≤ steps)
    (keyword : Bytes) :
    F.Agrees limit (F.Trees n) ((given g keyword).run s) ((given g' keyword).run u) := by
  rw [given, given]
  split
  · exact agrees_schemaAndRows G h hn
  · exact .ret ⟨.nil, h⟩

theorem sourceList_like {x y : Node} (h : x.Like y) :
    Node.LikeAll (sourceList x) (sourceList y) := by
  rw [Node.LikeAll, ← sourceList_outline, ← sourceList_outline, h]

theorem agrees_sources (G : F.Grammars steps g g') (h : F.Touching n s u) (hn : 2 * n ≤ steps) :
    F.Agrees limit (F.Trees n) ((sources g).run s) ((sources g').run u) := by
  have lt := h.fewer
  simp only [sources, run_seesWord_bind, run_peek_bind, ← h.isWord_eq]
  by_cases hin : s.current.isWord (bytes "in") = true
  · have hs := h.ne_nil_of_isWord hin
    have h1 := h.advance hs (Nat.le_of_lt lt)
    have l1 : s.advance.tokens.length < n := h1.fewer
    rw [(h.look_next hs).decide_kind (k := .leftParen) rfl]
    split
    · rw [run_advance_bind, run_advance_bind]
      refine .bind (G.sources h1.toAlike (by omega)) ?_
      rintro x y t2 v2 ⟨hxy, h2⟩
      exact .ret ⟨sourceList_like hxy, h2.mono (Nat.le_of_lt l1)⟩
    · exact .ret ⟨.nil, h⟩
  · simp only [hin, Bool.false_and, Bool.false_eq_true, if_false]
    exact .ret ⟨.nil, h⟩

theorem agrees_searched (G : F.Grammars steps g g') (h : F.Touching n s u) (hn : 2 * n ≤ steps)
    (keyword : Bytes) :
    F.Agrees limit (F.Trees n) ((searched g keyword).run s) ((searched g' keyword).run u) := by
  rw [searched, searched]
  split
  · exact agrees_sources G h hn
  · exact .ret ⟨.nil, h⟩

theorem agrees_body (G : F.Grammars steps g g') (h : F.Touching n s u) (hn : 2 * n ≤ steps)
    {found found' : List Node} (hfound : Node.LikeAll found found') :
    F.Agrees limit (F.Trees n) ((body g found).run s) ((body g' found').run u) := by
  have hb := G.bound
  refine agrees_loop (I := Node.LikeAll) h (by omega) hfound ?_
  intro found found' t v hfound ht
  have lt := ht.fewer
  simp only [bodyRound, run_current_bind, ← ht.look.endsBody_eq]
  split
  · exact .ret ⟨hfound.reverse, ht⟩
  rename_i hends
  have hs := ht.ne_nil_of_endsBody (by simpa using hends)
  rw [run_peek_bind, run_peek_bind, (ht.same hs).kind, ← ht.isClause_eq hs]
  split
  · rw [run_advance_bind, run_advance_bind]
    exact .ret ⟨hfound, ht.advance hs (Nat.le_refl _)⟩
  split
  · refine .bind (agrees_block G ht.toAlike hs (by omega)) ?_
    rintro x y t1 v1 ⟨hxy, h1⟩
    exact .ret ⟨.cons hxy hfound, h1⟩
  obtain ⟨x, y, hx, hy, hxy, -⟩ := ht.startsSubquery_eq
  rcases hxy with rfl | ⟨rfl, unclosed⟩
  · rw [run_bind, run_bind, hx, hy]
    cases x with
    | true =>
      refine .bind (agrees_subquery G ht.toAlike hs (by omega)) ?_
      rintro x y t1 v1 ⟨hxy, h1⟩
      exact .ret ⟨.cons hxy hfound, h1⟩
    | false =>
      refine .bind (agrees_operatorArgument G ht.toAlike (by omega)) ?_
      rintro x y t1 v1 ⟨hxy, h1⟩
      exact .ret ⟨.cons hxy hfound, h1⟩
  · -- the parenthesis that the long text takes for a subquery is reported in the short one
    refine .of_not_clean ?_
    rw [run_bind, hx]
    refine not_clean_bind ?_
    rw [operatorArgument, run_current_bind]
    refine not_clean_bind ?_
    rw [namedOrExpression, run_current_bind]
    exact not_clean_bind (not_clean_expression G ht.ending unclosed)

theorem agrees_operator (G : F.Grammars steps g g') (h : F.Alike s u) (hs : s.tokens ≠ [])
    (hn : 2 * s.tokens.length ≤ steps) :
    F.Agrees limit (F.Tree s.tokens.length) ((operator g).run s) ((operator g').run u) := by
  have hb := G.bound
  have h1 := h.advance hs (Nat.le_refl _)
  simp only [operator, run_current_bind, run_advance_bind, (h.same hs).text]
  refine .bind (agrees_params h1 (by omega) _) ?_
  rintro params params' t2 v2 ⟨hparams, h2⟩
  refine .bind (agrees_given G h2 hn _) ?_
  rintro given given' t3 v3 ⟨hgiven, h3⟩
  refine .bind (agrees_searched G h3 hn _) ?_
  rintro sources sources' t4 v4 ⟨hsources, h4⟩
  refine .bind (agrees_body G h4 hn hgiven.reverse) ?_
  rintro arguments arguments' t5 v5 ⟨hargs, h5⟩
  have hempty : arguments'.isEmpty = arguments.isEmpty := by
    rw [Bool.eq_iff_iff, List.isEmpty_iff_length_eq_zero, List.isEmpty_iff_length_eq_zero,
      hargs.length]
  rw [hempty]
  split
  · exact .of_not_clean (not_clean_bind (t5.not_clean_report _))
  · refine agrees_build h5 (h.outline hs) ?_
    exact .append (.append ((likeAll_of_setting hparams).inSlot _) (hsources.inSlot _))
      (hargs.inSlot _)

theorem agrees_leading (G : F.Grammars steps g g') (h : F.Alike s u) (hs : s.tokens ≠ [])
    (hn : 2 * s.tokens.length ≤ steps) :
    F.Agrees limit (F.Tree s.tokens.length) ((leading g).run s) ((leading g').run u) := by
  simp only [leading, run_seesWord_bind, ← h.isWord_eq]
  split
  · exact agrees_union G h hs hn
  · exact agrees_operator G h hs hn

theorem agrees_pipeOperator (G : F.Grammars steps g g') (h : F.Alike s u)
    (hn : 2 * s.tokens.length ≤ steps) :
    F.Agrees limit (F.Tree s.tokens.length) ((pipeOperator g).run s) ((pipeOperator g').run u) := by
  rw [pipeOperator, pipeOperator, run_current_bind, run_current_bind]
  by_cases hword : s.current.kind = .word
  · have hs := h.ne_nil_of_kind rfl hword
    rw [if_neg (not_not.2 hword), if_neg (not_not.2 ((h.kind_iff rfl).1 hword)), (h.same hs).text]
    split
    · exact agrees_joinLike G h hs hn _
    split
    · exact agrees_joinLike G h hs hn _
    split
    · exact agrees_union G h hs hn
    split
    · exact agrees_operator G h hs hn
    · exact .of_not_clean (s.not_clean_report _)
  · rw [if_pos hword]
    exact .of_not_clean (s.not_clean_report _)

end KustoFacts.Frame
