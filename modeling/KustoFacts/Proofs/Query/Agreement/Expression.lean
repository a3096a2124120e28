import KustoFacts.Proofs.Query.LookAhead

/-!
    Expressions agree. A production is given a grammar for the short text and one for the long text,
    and asks them for goals; `Frame.Grammars` says that the two agree on every goal that can be
    reached in the long text with a given number of steps. The short text may be read with any
    number of steps, since running out of them is reported. -/

namespace KustoFacts.Frame

open KustoFacts.Parser

/-- Two grammars that agree on the goals within reach of `steps`. A goal is within reach if there are
    two steps for each token left and one more, and still one more for a goal that begins with
    another where it stands. -/
structure Grammars (F : Frame) (steps : Nat) (g g' : Grammar) : Prop where
  bound : steps ≤ g'.bound
  unary : ∀ {limit : Limit} {s u : ParserState}, F.Alike s u → 2 * s.tokens.length + 1 ≤ steps →
    F.Agrees limit (F.Tree s.tokens.length) ((g.reach .unary).run s) ((g'.reach .unary).run u)
  pipeOperator : ∀ {limit : Limit} {s u : ParserState}, F.Alike s u →
    2 * s.tokens.length + 1 ≤ steps →
    F.Agrees limit (F.Tree s.tokens.length) ((g.reach .pipeOperator).run s)
      ((g'.reach .pipeOperator).run u)
  sources : ∀ {limit : Limit} {s u : ParserState}, F.Alike s u → 2 * s.tokens.length + 1 ≤ steps →
    F.Agrees limit (F.Tree s.tokens.length) ((g.reach .sources).run s) ((g'.reach .sources).run u)
  binary : ∀ {limit : Limit} (level : Nat) {s u : ParserState}, F.Alike s u →
    2 * s.tokens.length + 2 ≤ steps →
    F.Agrees limit (F.Tree s.tokens.length) ((g.reach (.binary level)).run s)
      ((g'.reach (.binary level)).run u)
  braced : ∀ {limit : Limit} {n : Nat} {s u : ParserState}, F.Touching n s u →
    2 * s.tokens.length + 2 ≤ steps →
    F.Agrees limit (F.Tree s.tokens.length) ((braced g).run s) ((braced g').run u)
  /-- A parenthesis that nothing closes is reported. -/
  unclosed : ∀ s : ParserState, s.ending.kind = .endOfInput → Unclosed s →
    ¬((g.reach .unary).run s).2.Clean

variable {F : Frame} {steps n : Nat} {g g' : Grammar} {limit : Limit} {s u : ParserState}

theorem Agrees.grow {r q : Option Node × ParserState} (h : F.Agrees limit (F.Tree n) r q)
    {m : Nat} (hn : n ≤ m) : F.Agrees limit (F.Tree m) r q := by
  refine h.mono ?_
  rintro t v ⟨hxy, ht⟩
  exact ⟨hxy, ht.mono hn⟩

/-! ### Infix operators -/

theorem agrees_betweenTail (G : F.Grammars steps g g') (h : F.Alike s u) (hs : s.tokens ≠ [])
    (hn : 2 * s.tokens.length ≤ steps) {first first' : Token} {left left' : Node} {op : Bytes}
    (hf : first.outline = first'.outline) (hleft : left.Like left') :
    F.Agrees limit (F.Tree s.tokens.length) ((betweenTail g first left op).run s)
      ((betweenTail g' first' left' op).run u) := by
  have h1 := h.advance hs (Nat.le_refl _)
  rw [betweenTail, betweenTail, run_advance_bind, run_advance_bind]
  refine agrees_expect h1.toAlike rfl ?_
  intro _ h2
  have l1 := h1.fewer
  have l2 := h2.fewer
  refine .bind (G.binary 0 h2.toAlike (by omega)) ?_
  rintro low low' s3 u3 ⟨hlow, h3⟩
  have l3 := h3.fewer
  refine agrees_expect h3.toAlike rfl ?_
  intro _ h4
  have l4 := h4.fewer
  refine .bind (G.binary 0 h4.toAlike (by omega)) ?_
  rintro high high' s5 u5 ⟨hhigh, h5⟩
  have l5 := h5.fewer
  refine agrees_expect h5.toAlike rfl ?_
  intro _ h6
  refine agrees_build (h6.mono (by omega)) hf ?_
  exact .cons (hleft.inSlot _) (.cons (hlow.inSlot _) (.cons (hhigh.inSlot _) .nil))

theorem agrees_operatorText (h : F.Touching n s u) {op op' : Token} (hop : op'.text = op.text) :
    F.Agrees limit (F.Equal n) ((operatorText op).run s) ((operatorText op').run u) := by
  rw [operatorText, operatorText, hop]
  split
  · rw [run_seesWord_bind, run_seesWord_bind, ← h.isWord_eq]
    split
    · rename_i hw
      have ht := h.advance (h.ne_nil_of_isWord hw) (Nat.le_of_lt h.fewer)
      exact .ret ⟨rfl, ht⟩
    · exact .of_not_clean (not_clean_bind (s.not_clean_report _))
  · exact .ret ⟨rfl, h⟩

theorem agrees_binaryRound (G : F.Grammars steps g g') (h : F.Touching n s u)
    (hn : 2 * n ≤ steps) {level : Nat} {first first' : Token} {left left' : Node}
    (hf : first.outline = first'.outline) (hleft : left.Like left') :
    F.Agrees limit (F.Rounds Node.Like (F.Tree n) s.tokens.length)
      ((binaryRound g level first left).run s) ((binaryRound g' level first' left').run u) := by
  have lt := h.fewer
  simp only [binaryRound, run_current_bind, ← h.look.infixLevel_eq]
  split
  · exact .ret ⟨hleft, h⟩
  rename_i hlevel
  have hs := h.ne_nil_of_infixLevel (Nat.lt_of_not_le hlevel)
  have same := h.same hs
  rw [run_peek_bind, run_peek_bind, same.kind, same.text, ← (h.look_next hs).startsOperand_eq]
  split
  · exact .ret ⟨hleft, h⟩
  split
  · refine .bind (agrees_betweenTail G h.toAlike hs (by omega) hf hleft) ?_
    rintro x y t v ⟨hxy, ht⟩
    exact .ret ⟨hxy, ht⟩
  have h1 := h.advance hs (Nat.le_refl _)
  rw [run_advance_bind, run_advance_bind]
  refine .bind (agrees_operatorText h1 same.text) ?_
  rintro text text' s2 u2 ⟨htext, h2⟩
  subst htext
  have l2 := h2.fewer
  refine .bind (G.binary _ h2.toAlike (by omega)) ?_
  rintro right right' s3 u3 ⟨hright, h3⟩
  have h3' := h3.mono (Nat.le_of_lt l2)
  rw [run_build_bind, run_build_bind]
  exact .ret ⟨Node.like_mk hf (.cons (hleft.inSlot _) (.cons (hright.inSlot _) .nil)), h3'⟩

theorem agrees_binary (G : F.Grammars steps g g') (h : F.Alike s u)
    (hn : 2 * s.tokens.length + 1 ≤ steps) (level : Nat) :
    F.Agrees limit (F.Tree s.tokens.length) ((binary g level).run s) ((binary g' level).run u) := by
  have hb := G.bound
  rw [binary, binary, run_current_bind, run_current_bind]
  refine .bind (G.unary h hn) ?_
  rintro left left' t v ⟨hleft, ht⟩
  have lt := ht.fewer
  have hs : s.tokens ≠ [] := List.ne_nil_of_length_pos (by omega)
  refine agrees_loop ht (by omega) hleft ?_
  intro x y t' v' hxy h'
  exact agrees_binaryRound G h' (by omega) (h.outline hs) hxy

theorem agrees_expression (G : F.Grammars steps g g') (h : F.Alike s u)
    (hn : 2 * s.tokens.length + 1 ≤ steps) :
    F.Agrees limit (F.Tree s.tokens.length) ((expression g).run s) ((expression g').run u) :=
  agrees_binary G h hn 0

/-- An expression that begins with a parenthesis that nothing closes is reported. -/
theorem not_clean_expression (G : F.Grammars steps g g') (he : s.ending.kind = .endOfInput)
    (hs : Unclosed s) : ¬((expression g).run s).2.Clean := by
  rw [expression, binary, run_current_bind]
  exact not_clean_bind (G.unclosed s he hs)

/-! ### Named expressions -/

theorem declaredNames?_like {x y : Node} (h : x.Like y) :
    (declaredNames? x).map (·.map Node.outline) = (declaredNames? y).map (·.map Node.outline) := by
  rw [← declaredNames?_outline, ← declaredNames?_outline, h]

theorem asDeclaration?_like {x y : Node} (h : x.Like y) :
    ((asDeclaration? x).getD x).Like ((asDeclaration? y).getD y) := by
  have hmap : (asDeclaration? x).map Node.outline = (asDeclaration? y).map Node.outline := by
    rw [← asDeclaration?_outline, ← asDeclaration?_outline, h]
  rcases hx : asDeclaration? x with _ | x' <;> rcases hy : asDeclaration? y with _ | y' <;>
    rw [hx, hy] at hmap
  · exact h
  · cases hmap
  · cases hmap
  · exact Option.some.inj hmap

theorem agrees_namedOrExpression (G : F.Grammars steps g g') (h : F.Alike s u)
    (hn : 2 * s.tokens.length + 1 ≤ steps) :
    F.Agrees limit (F.Tree s.tokens.length) ((namedOrExpression g).run s)
      ((namedOrExpression g').run u) := by
  rw [namedOrExpression, namedOrExpression, run_current_bind, run_current_bind]
  refine .bind (agrees_expression G h hn) ?_
  rintro left left' t v ⟨hleft, ht⟩
  have lt := ht.fewer
  rw [run_current_bind, run_current_bind]
  by_cases hassign : t.current.kind = .assign
  · have hs : t.tokens ≠ [] := ht.ne_nil_of_kind rfl hassign
    have hs0 : s.tokens ≠ [] := List.ne_nil_of_length_pos (by omega)
    rw [if_neg (not_not.2 hassign), if_neg (not_not.2 ((ht.kind_iff rfl).1 hassign))]
    have hnames := declaredNames?_like hleft
    rcases hx : declaredNames? left with _ | names <;>
      rcases hy : declaredNames? left' with _ | names' <;> rw [hx, hy] at hnames
    · exact .of_not_clean (t.not_clean_report _)
    · cases hnames
    · cases hnames
    · have h1 := ht.advance hs (Nat.le_refl _)
      have l1 := h1.fewer
      simp only [run_advance_bind]
      refine .bind (agrees_expression G h1.toAlike (by omega)) ?_
      rintro value value' t2 v2 ⟨hv, h2⟩
      refine agrees_build (h2.mono (by omega)) (h.outline hs0) ?_
      exact .append (.inSlot (Option.some.inj hnames) _) (.cons (hv.inSlot _) .nil)
  · rw [if_pos hassign, if_pos (mt (ht.kind_iff rfl).2 hassign)]
    exact .ret ⟨hleft, ht⟩

theorem agrees_assigned (G : F.Grammars steps g g') (h : F.Touching n s u) (hn : 2 * n ≤ steps) :
    F.Agrees limit (F.Trees n) ((assigned g).run s) ((assigned g').run u) := by
  have lt := h.fewer
  refine agrees_accept h.toAlike rfl (fun h1 => ?_) ?_
  · have l1 := h1.fewer
    simp only [if_true]
    refine .bind (agrees_expression G h1.toAlike (by omega)) ?_
    rintro x y t v ⟨hxy, ht⟩
    exact .ret ⟨.cons (hxy.inSlot _) .nil, ht.mono (by omega)⟩
  · exact .ret ⟨.nil, h⟩

/-! ### Types and names -/

theorem agrees_typeName (h : F.Alike s u) :
    F.Agrees limit (F.Equal s.tokens.length) (typeName.run s) (typeName.run u) := by
  rw [typeName, run_current_bind, run_current_bind]
  by_cases hk : s.current.kind = .word
  · have hs := h.ne_nil_of_kind rfl hk
    rw [if_pos hk, if_pos ((h.kind_iff rfl).1 hk), run_advance_bind, run_advance_bind,
      (h.same hs).text]
    exact .ret ⟨rfl, h.advance hs (Nat.le_refl _)⟩
  · rw [if_neg hk]
    exact .of_not_clean (s.not_clean_report _)

theorem agrees_operatorArgument (G : F.Grammars steps g g') (h : F.Alike s u)
    (hn : 2 * s.tokens.length + 1 ≤ steps) :
    F.Agrees limit (F.Tree s.tokens.length) ((operatorArgument g).run s)
      ((operatorArgument g').run u) := by
  rw [operatorArgument, operatorArgument, run_current_bind, run_current_bind]
  refine .bind (agrees_namedOrExpression G h hn) ?_
  rintro node node' t v ⟨hnode, ht⟩
  have lt := ht.fewer
  have hs : s.tokens ≠ [] := List.ne_nil_of_length_pos (by omega)
  refine agrees_accept ht.toAlike rfl (fun h1 => ?_) ?_
  · have l1 := h1.fewer
    simp only [if_true]
    refine .bind (agrees_typeName h1.toAlike) ?_
    rintro type type' t2 v2 ⟨htype, h2⟩
    subst htype
    refine agrees_build (h2.mono (by omega)) (h.outline hs) ?_
    exact .cons ((asDeclaration?_like hnode).inSlot _) .nil
  · simp only [Bool.false_eq_true, if_false]
    exact .ret ⟨hnode, ht⟩

end KustoFacts.Frame
