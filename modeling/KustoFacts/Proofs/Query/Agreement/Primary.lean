import KustoFacts.Proofs.Query.Agreement.Operator

/-!
    Operands agree. Inside parentheses a pipe belongs to the item being read, so items agree only
    before the end of the short text; the parenthesis that must close them keeps to that limit. -/

namespace KustoFacts.Frame

open KustoFacts.Parser

variable {F : Frame} {steps n : Nat} {g g' : Grammar} {limit : Limit} {s u : ParserState}

/-! ### Items in parentheses -/

/-- An item that begins with a parenthesis that nothing closes is reported. -/
theorem not_clean_parenItem (G : F.Grammars steps g g') (h : F.Alike s u) (hs : Unclosed s)
    (hx : startsSubquery.run s = (some false, s)) : ¬((parenItem g).run s).2.Clean := by
  have hleading : startsLeading s.current s.next = false := by simp [startsLeading, hs.1]
  rw [parenItem, run_bind, hx]
  simp only [Bool.false_eq_true, if_false, run_current_bind, run_peek_bind, hleading]
  refine not_clean_bind ?_
  rw [namedOrExpression, run_current_bind]
  exact not_clean_bind (not_clean_expression G h.ending hs)

theorem agrees_parenItem (G : F.Grammars steps g g') (h : F.Touching n s u) (hn : 2 * n ≤ steps)
    (hl : limit ≠ .anywhere) :
    F.Agrees limit (F.Tree s.tokens.length) ((parenItem g).run s) ((parenItem g').run u) := by
  have lt := h.fewer
  obtain ⟨x, y, hx, hy, hxy, hne⟩ := h.startsSubquery_eq
  rcases hxy with rfl | ⟨rfl, unclosed⟩
  · rw [parenItem, parenItem, run_bind, run_bind, hx, hy]
    cases x with
    | true => exact agrees_subquery G h.toAlike (hne rfl) (by omega)
    | false =>
      simp only [Bool.false_eq_true, if_false, run_current_bind, run_peek_bind, ← h.startsLeading_eq]
      split
      · rename_i hleading
        have hs := h.ne_nil_of_startsLeading hleading
        refine .bind (agrees_leading G h.toAlike hs (by omega)) ?_
        rintro x y t v ⟨hxy, ht⟩
        exact agrees_pipes G ht (by omega) hl (h.outline hs) hxy
      · refine .bind (agrees_namedOrExpression G h.toAlike (by omega)) ?_
        rintro x y t v ⟨hxy, ht⟩
        have hs : s.tokens ≠ [] := List.ne_nil_of_length_pos (Nat.zero_lt_of_lt ht.fewer)
        exact agrees_pipes G ht (by omega) hl (h.outline hs) hxy
  · exact .of_not_clean (not_clean_parenItem G h.toAlike unclosed hx)

theorem agrees_parenItems (G : F.Grammars steps g g') (h : F.Touching n s u)
    (hn : 2 * n ≤ steps) :
    F.Agrees .beforeEnd (F.Trees n) ((itemsUntil g.bound .rightParen (parenItem g)).run s)
      ((itemsUntil g'.bound .rightParen (parenItem g')).run u) := by
  have hb := G.bound
  exact agrees_itemsUntil rfl h (by omega) fun t v ht => agrees_parenItem G ht hn (by decide)

theorem agrees_call (G : F.Grammars steps g g') (h : F.Alike s u) (hs : s.tokens.tail ≠ [])
    (hn : 2 * s.tokens.length ≤ steps) :
    F.Agrees limit (F.Tree s.tokens.length) ((call g).run s) ((call g').run u) := by
  have hs0 : s.tokens ≠ [] := fun h0 => hs (by rw [h0]; rfl)
  have h1 := h.advance hs0 (Nat.le_refl _)
  have h2 := h1.advance hs (Nat.le_of_lt h1.fewer)
  simp only [call, run_current_bind, run_advance_bind, (h.same hs0).text]
  refine .bindExpect h2.ending (by decide) (agrees_parenItems G h2 hn) ?_
  rintro arguments arguments' t3 v3 ⟨hargs, h3⟩
  refine agrees_expect h3.toAlike rfl ?_
  intro _ h4
  exact agrees_build (h4.mono (Nat.le_of_lt h3.fewer)) (h.outline hs0) (hargs.inSlot _)

theorem agrees_parenthesized (G : F.Grammars steps g g') (h : F.Alike s u) (hs : s.tokens ≠ [])
    (hn : 2 * s.tokens.length ≤ steps) :
    F.Agrees limit (F.Tree s.tokens.length) ((parenthesized g).run s)
      ((parenthesized g').run u) := by
  have h1 := h.advance hs (Nat.le_refl _)
  simp only [parenthesized, run_current_bind, run_advance_bind]
  refine .bindExpect h1.ending (by decide) (agrees_parenItems G h1 hn) ?_
  rintro items items' t2 v2 ⟨hitems, h2⟩
  refine agrees_expect h2.toAlike rfl ?_
  intro _ h3
  have h3' := h3.mono (Nat.le_of_lt h2.fewer)
  have hlength := hitems.length
  -- one item is kept as it is, any other number makes a list
  rcases items with _ | ⟨x, _ | ⟨x', xs⟩⟩ <;> rcases items' with _ | ⟨y, _ | ⟨y', ys⟩⟩ <;>
    simp at hlength
  · exact agrees_build h3' (h.outline hs) .nil
  · exact agrees_build h3' (h.outline hs) (hitems.inSlot _)
  · exact agrees_build h3' (h.outline hs) (hitems.inSlot _)

theorem agrees_bracketList (G : F.Grammars steps g g') (h : F.Alike s u) (hs : s.tokens ≠ [])
    (hn : 2 * s.tokens.length ≤ steps) :
    F.Agrees limit (F.Tree s.tokens.length) ((bracketList g).run s) ((bracketList g').run u) := by
  have hb := G.bound
  have h1 := h.advance hs (Nat.le_refl _)
  simp only [bracketList, run_current_bind, run_advance_bind]
  refine .bind (agrees_itemsUntil rfl h1 (by omega) ?_) ?_
  · intro t v ht
    have := ht.fewer
    exact agrees_expression G ht.toAlike (by omega)
  rintro items items' t2 v2 ⟨hitems, h2⟩
  refine agrees_expect h2.toAlike rfl ?_
  intro _ h3
  exact agrees_build (h3.mono (Nat.le_of_lt h2.fewer)) (h.outline hs) (hitems.inSlot _)

/-! ### Names -/

theorem agrees_bracketName (h : F.Alike s u) (hs : s.tokens ≠ []) :
    F.Agrees limit (F.Tree s.tokens.length) (bracketName.run s) (bracketName.run u) := by
  have h1 := h.advance hs (Nat.le_refl _)
  simp only [bracketName, run_current_bind, run_advance_bind]
  by_cases hs1 : s.advance.tokens = []
  · refine .of_not_clean (not_clean_expect h.ending (by decide) ?_)
    rw [ParserState.advance, hs1]
    simp
  have h2 := h1.advance hs1 (Nat.le_of_lt h1.fewer)
  rw [show u.advance.current.text = s.advance.current.text from (h1.same hs1).text]
  refine agrees_expect h2.toAlike rfl ?_
  intro _ h3
  exact agrees_build (h3.mono (Nat.le_of_lt h2.fewer)) (h.outline hs) .nil

/-- Whether the current token touches the one before is seen alike. -/
theorem Touching.touches_iff (h : F.Touching n s u) (hs : s.tokens ≠ []) :
    u.current.pos.offset = u.prevEnd ↔ s.current.pos.offset = s.prevEnd := by
  have := (h.same hs).offset
  have := h.joined
  constructor <;> intro _ <;> omega

theorem agrees_wildcard (G : F.Grammars steps g g') (h : F.Alike s u) (hs : s.tokens ≠ [])
    (hn : 2 * s.tokens.length ≤ steps) :
    F.Agrees limit (F.Tree s.tokens.length) ((wildcard g).run s) ((wildcard g').run u) := by
  have hb := G.bound
  have h1 := h.advance hs (Nat.le_refl _)
  simp only [wildcard, run_current_bind, run_advance_bind, (h.same hs).text]
  refine .bind (Q := F.Equal s.tokens.length) (agrees_loop (I := Eq) h1 (by omega) rfl ?_) ?_
  · rintro pattern pattern' t v rfl ht
    simp only [wildcardRound, run_current_bind, run_state_bind]
    by_cases hst : t.tokens = []
    · rcases TokenKind.eq_of_isStop (ht.isStop_of_nil hst) with hk | hk | hk <;>
      · simp only [ht.current_of_nil hst, hk, reduceCtorEq, decide_false, Bool.or_self,
          Bool.false_and, Bool.false_eq_true, if_false]
        exact .ret ⟨rfl, ht⟩
    · have same := ht.same hst
      simp only [same.kind, same.text, ht.touches_iff hst]
      split
      · rw [run_advance_bind, run_advance_bind]
        exact .ret ⟨rfl, ht.advance hst (Nat.le_refl _)⟩
      · exact .ret ⟨rfl, ht⟩
  · rintro pattern pattern' t2 v2 ⟨rfl, h2⟩
    exact agrees_build h2 (h.outline hs) .nil

theorem agrees_adjacentStrings (G : F.Grammars steps g g') (h : F.Touching n s u)
    (hn : 2 * n ≤ steps) :
    F.Agrees limit (F.Equal n) ((adjacentStrings g).run s) ((adjacentStrings g').run u) := by
  have hb := G.bound
  refine agrees_loop (I := Eq) h (by omega) rfl ?_
  intro x y t v hxy ht
  refine agrees_accept ht.toAlike rfl (fun h1 => ?_) ?_
  · exact .ret ⟨rfl, h1⟩
  · exact .ret ⟨rfl, ht⟩

/-! ### Operands -/

theorem agrees_primary (G : F.Grammars steps g g') (h : F.Alike s u)
    (hn : 2 * s.tokens.length ≤ steps) :
    F.Agrees limit (F.Tree s.tokens.length) ((primary g).run s) ((primary g').run u) := by
  rw [primary, primary, run_current_bind, run_current_bind]
  by_cases hs : s.tokens = []
  · rw [h.current_of_nil hs]
    exact .of_not_clean (s.not_clean_report _)
  have same := h.same hs
  have hf := h.outline hs
  have h1 := h.advance hs (Nat.le_refl _)
  rw [same.kind]
  split
  · exact agrees_build h1 hf .nil
  · exact agrees_build h1 hf .nil
  · simp only [run_advance_bind]
    refine .bind (agrees_adjacentStrings G h1 hn) ?_
    rintro _ _ t2 v2 ⟨_, h2⟩
    exact agrees_build h2 hf .nil
  · simp only [run_peek_bind, run_peekSecond_bind, same.text, ← h.startsCall_eq hs,
      ← h.startsWildcard_eq hs]
    split
    · exact agrees_build h1 hf .nil
    split
    · rename_i hcall
      simp only [startsCall, Bool.and_eq_true, decide_eq_true_eq] at hcall
      exact agrees_call G h (h.tail_ne_nil (by rw [hcall.1]; decide)) hn
    split
    · exact agrees_wildcard G h hs hn
    · exact agrees_build h1 hf .nil
  · simp only [run_peek_bind, run_peekSecond_bind, (h.look_next hs).decide_kind (k := .string) rfl]
    by_cases hstring : s.next.kind = .string
    · have hthird := h.look_afterNext (h.tail_ne_nil (by rw [hstring]; decide))
      rw [hthird.decide_kind (k := .rightBracket) rfl]
      split
      · exact agrees_bracketName h hs
      · exact agrees_bracketList G h hs hn
    · simp only [hstring, decide_false, Bool.false_and, Bool.false_eq_true, if_false]
      exact agrees_bracketList G h hs hn
  · exact agrees_parenthesized G h hs hn
  · exact agrees_build h1 hf .nil
  · exact .of_not_clean (s.not_clean_report _)

theorem agrees_selector (G : F.Grammars steps g g') (h : F.Alike s u) (hs : s.tokens ≠ [])
    (hn : 2 * s.tokens.length ≤ steps) :
    F.Agrees limit (F.Tree s.tokens.length) ((selector g).run s) ((selector g').run u) := by
  have same := h.same hs
  simp only [selector, run_current_bind, same.kind, same.text]
  split
  · exact agrees_bracketName h hs
  rw [run_peek_bind, run_peek_bind]
  by_cases hparen : s.next.kind = .leftParen
  · rw [if_pos hparen, if_pos ((h.next_kind_iff hs rfl).1 hparen)]
    exact agrees_call G h (h.tail_ne_nil (by rw [hparen]; decide)) hn
  · rw [if_neg hparen, if_neg (mt (h.next_kind_iff hs rfl).2 hparen)]
    exact agrees_build (h.advance hs (Nat.le_refl _)) (h.outline hs) .nil

theorem agrees_postfixRound (G : F.Grammars steps g g') (h : F.Touching n s u)
    (hn : 2 * n ≤ steps) {first first' : Token} {node node' : Node}
    (hf : first.outline = first'.outline) (hnode : node.Like node') :
    F.Agrees limit (F.Rounds Node.Like (F.Tree n) s.tokens.length)
      ((postfixRound g first node).run s) ((postfixRound g' first' node').run u) := by
  have lt := h.fewer
  simp only [postfixRound, run_current_bind, run_peek_bind]
  by_cases hs : s.tokens = []
  · rcases TokenKind.eq_of_isStop (h.isStop_of_nil hs) with hk | hk | hk <;>
    · simp only [h.current_of_nil hs, hk, reduceCtorEq, decide_false, Bool.false_and,
        Bool.false_eq_true, if_false]
      exact .ret ⟨hnode, h⟩
  have hnext := h.look_next hs
  have h1 := h.advance hs (Nat.le_refl _)
  have l1 := h1.fewer
  simp only [(h.same hs).kind, hnext.decide_kind (k := .word) rfl,
    hnext.decide_kind (k := .leftBracket) rfl]
  split
  · rename_i hdot
    simp only [Bool.and_eq_true, Bool.or_eq_true, decide_eq_true_eq] at hdot
    have hs1 : s.advance.tokens ≠ [] := h.tail_ne_nil (by
      rcases hdot.2 with hk | hk <;> rw [hk] <;> decide)
    simp only [run_advance_bind]
    refine .bind (agrees_selector G h1.toAlike hs1 (by omega)) ?_
    rintro x y t2 v2 ⟨hxy, h2⟩
    rw [run_build_bind, run_build_bind]
    refine .ret ⟨Node.like_mk hf ?_, h2.mono (Nat.le_of_lt l1)⟩
    exact .cons (hnode.inSlot _) (.cons (hxy.inSlot _) .nil)
  simp only [run_state_bind, h.touches_iff hs]
  split
  · simp only [run_advance_bind]
    refine .bind (agrees_expression G h1.toAlike (by omega)) ?_
    rintro x y t2 v2 ⟨hxy, h2⟩
    have l2 := h2.fewer
    refine agrees_expect h2.toAlike rfl ?_
    intro _ h3
    rw [run_build_bind, run_build_bind]
    refine .ret ⟨Node.like_mk hf ?_, h3.mono (by omega)⟩
    exact .cons (hnode.inSlot _) (.cons (hxy.inSlot _) .nil)
  · exact .ret ⟨hnode, h⟩

theorem agrees_selected (G : F.Grammars steps g g') (h : F.Alike s u)
    (hn : 2 * s.tokens.length ≤ steps) :
    F.Agrees limit (F.Tree s.tokens.length) ((selected g).run s) ((selected g').run u) := by
  have hb := G.bound
  rw [selected, selected, run_current_bind, run_current_bind]
  refine .bind (agrees_primary G h hn) ?_
  rintro node node' t v ⟨hnode, ht⟩
  have hs : s.tokens ≠ [] := List.ne_nil_of_length_pos (Nat.zero_lt_of_lt ht.fewer)
  exact agrees_loop ht (by omega) hnode fun x y t' v' hxy h' =>
    agrees_postfixRound G h' hn (h.outline hs) hxy

theorem agrees_signed (G : F.Grammars steps g g') (h : F.Alike s u)
    (hn : 2 * s.tokens.length ≤ steps) :
    F.Agrees limit (F.Tree s.tokens.length) ((signed g).run s) ((signed g').run u) := by
  simp only [signed, run_current_bind, h.look.decide_kind (k := .minus) rfl,
    h.look.decide_kind (k := .plus) rfl]
  split
  · rename_i hsign
    simp only [Bool.or_eq_true, decide_eq_true_eq] at hsign
    have hs : s.tokens ≠ [] := by
      rcases hsign with hk | hk <;> exact h.ne_nil_of_kind (by rfl) hk
    have h1 := h.advance hs (Nat.le_refl _)
    have l1 := h1.fewer
    simp only [run_advance_bind, (h.same hs).text]
    refine .bind (G.unary h1.toAlike (by omega)) ?_
    rintro x y t2 v2 ⟨hxy, h2⟩
    exact agrees_build (h2.mono (Nat.le_of_lt l1)) (h.outline hs) (.cons (hxy.inSlot _) .nil)
  · exact agrees_selected G h hn

end KustoFacts.Frame
