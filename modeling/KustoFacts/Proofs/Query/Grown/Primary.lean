import KustoFacts.Proofs.Query.Grown.Operator

/-!
    Operands grow in order. Here names enter a tree: a reference is spelled by a word, by a string in
    brackets, or by whatever stands in brackets after a dot, and a call by a word before a
    parenthesis. -/

namespace KustoFacts.Parser

open KustoFacts.Node (Row Slotted)

variable {text : Bytes} {read : Tokens} {g : Grammar} {k k' : Nat} {s : ParserState}

/-- A name in brackets, if whatever stands in them spells a name. -/
theorem takes_bracketName (hs : s.Stands text read k') (hkind : s.current.kind = .leftBracket)
    (hname : ∀ closing rest, s.tokens = s.current :: s.next :: closing :: rest →
      closing.kind = .rightBracket → read.Names (Unquoted.value s.next.text)) :
    Takes text read k bracketName s := by
  have hend : s.current.kind ≠ .endOfInput := by simp [hkind]
  refine .look ?_
  refine .advance hs hend fun h1 b1 lt => .look (.skip ?_)
  refine .expect h1.advance rfl fun hclosing h3 b3 _ => ?_
  obtain ⟨rest, htokens⟩ := hs.tokens_eq_three hend (by
    rw [show s.afterNext.kind = .rightBracket from hclosing]
    decide)
  have lt : s.current.pos.offset < s.advance.advance.advance.prevEnd :=
    Nat.lt_of_lt_of_le lt (h1.before_advance.trans b3).prevEnd
  exact lies_build h3 hs.current_mem lt (hname _ rest htokens hclosing) (by rintro ⟨⟩)
    (.nil (Nat.le_of_lt lt))

/-! ### Operands are no infix operators -/

theorem level?_call : Leads (call g) s fun n _ => n.form.level? = none :=
  .look (.anyhow fun _ _ => .anyhow fun _ _ => .anyhow fun _ _ => .anyhow fun _ _ => .build rfl)

theorem level?_bracketName : Leads bracketName s fun n _ => n.form.level? = none :=
  .look (.anyhow fun _ _ => .look (.anyhow fun _ _ => .anyhow fun _ _ => .build rfl))

theorem level?_primary : Leads (primary g) s fun n _ => n.form.level? = none := by
  refine .look ?_
  split
  · exact .anyhow fun _ _ => .build rfl
  · exact .anyhow fun _ _ => .build rfl
  · exact .anyhow fun _ _ => .anyhow fun _ _ => .build rfl
  · refine .look (.look ?_)
    split
    · exact .anyhow fun _ _ => .build rfl
    split
    · exact level?_call
    split
    · exact .look (.anyhow fun _ _ => .anyhow fun _ _ => .build rfl)
    · exact .anyhow fun _ _ => .build rfl
  · refine .look (.look ?_)
    split
    · exact level?_bracketName
    · exact .look (.anyhow fun _ _ => .anyhow fun _ _ => .anyhow fun _ _ => .build rfl)
  · refine .look (.anyhow fun _ _ => .anyhow fun items _ => .anyhow fun _ _ => ?_)
    split
    · exact .build rfl
    · exact .build rfl
  · exact .anyhow fun _ _ => .build rfl
  · exact .refuse

theorem level?_selected (hs : s.Stands text read k) :
    Leads (selected g) s fun n _ => n.form.level? = none := by
  refine .look (.bind hs level?_primary fun node t ht _ hnode => ?_)
  refine .loop ht (I := fun n _ => n.form.level? = none) hnode fun node u hu _ hnode => ?_
  refine .look (.look ?_)
  split
  · exact .anyhow fun _ _ => .anyhow fun member _ => .look (.pure rfl)
  refine .look ?_
  split
  · exact .anyhow fun _ _ => .anyhow fun index _ => .anyhow fun _ _ => .look (.pure rfl)
  · exact .pure hnode

section Operands

variable (G : Grows text read g)
include G

theorem takes_parenItem (hs : s.Stands text read k) : Takes text read (k + 1) (parenItem g) s := by
  refine leads_startsSubquery (fun hparen => ?_) ?_
  · exact (takes_subquery G hs hparen).mono fun n t hn => hn.mono (Nat.le_succ k)
  -- the head and the operators after it begin with the same token
  have rest {head : Node} {t : ParserState} (ht : t.Stands text read k)
      (hhead : head.Lies text read (k + 1) s.current.pos.offset t.prevEnd) :
      Leads (pipes g s.current head) t fun n u =>
        n.Lies text read (k + 1) s.current.pos.offset u.prevEnd :=
    lies_pipes G ht (Nat.le_succ k) hs.current_mem hhead
  refine .look (.look ?_)
  split
  next hleading =>
    exact .bind hs (takes_leading G hs (kind_of_startsLeading hleading))
      fun head t ht _ hhead => rest ht hhead
  next =>
    exact .bind hs (takes_namedOrExpression G hs)
      fun head t ht _ hhead => rest ht (hhead.mono (Nat.le_succ k))

theorem takes_call (hs : s.Stands text read k) (hword : s.current.kind = .word)
    (hparen : s.next.kind = .leftParen) : Takes text read (k + 1) (call g) s := by
  have hkind : s.current.kind ≠ .endOfInput := by simp [hword]
  have hcalls : read.Calls s.current.text :=
    ⟨s.current, s.next, hs.pair_infix hkind (by simp [hparen]), hword, rfl, hparen⟩
  refine .look ?_
  refine .advance hs hkind fun h1 b1 lt => .after h1 fun _ s2 h2 b2 => ?_
  refine .bind h2 (takesAll_itemsUntil h2 fun _ => takes_parenItem G)
    fun arguments s3 h3 b3 harguments => .after h3 fun _ s4 h4 b4 => ?_
  refine lies_build h4 hs.current_mem ?_ hcalls (by rintro ⟨⟩) ?_
  · exact Nat.lt_of_lt_of_le lt (b2.trans (b3.trans b4)).prevEnd
  · exact (harguments.slotted .argument (Nat.le_refl _)).widen
      (Nat.le_of_lt (Nat.lt_of_lt_of_le lt b2.prevEnd)) b4.prevEnd

theorem takes_bracketList (hs : s.Stands text read k) (hkind : s.current.kind ≠ .endOfInput) :
    Takes text read (k + 1) (bracketList g) s := by
  refine .look ?_
  refine .advance hs hkind fun h1 b1 lt => ?_
  refine .bind h1 (takesAll_itemsUntil h1 fun _ => takes_expression G)
    fun items s2 h2 b2 hitems => .after h2 fun _ s3 h3 b3 => ?_
  refine lies_build h3 hs.current_mem ?_ trivial (by rintro ⟨⟩) ?_
  · exact Nat.lt_of_lt_of_le lt (b2.trans b3).prevEnd
  · refine Slotted.widen ?_ (Nat.le_of_lt lt) b3.prevEnd
    exact hitems.slotted .element (Nat.le_succ k)

theorem takes_parenthesized (hs : s.Stands text read k) (hkind : s.current.kind ≠ .endOfInput) :
    Takes text read (k + 1) (parenthesized g) s := by
  refine .look ?_
  refine .advance hs hkind fun h1 b1 lt => ?_
  refine .bind h1 (takesAll_itemsUntil h1 fun _ => takes_parenItem G)
    fun items s2 h2 b2 hitems => .after h2 fun _ s3 h3 b3 => ?_
  have hread : s.current.pos.offset < s3.prevEnd :=
    Nat.lt_of_lt_of_le lt (b2.trans b3).prevEnd
  have hitems := hitems.widen (Nat.le_of_lt lt) b3.prevEnd
  split
  · exact lies_build h3 hs.current_mem hread trivial (by rintro ⟨⟩)
      (hitems.slotted .expression (Nat.le_refl _))
  · exact lies_build h3 hs.current_mem hread trivial (by rintro ⟨⟩)
      (hitems.slotted .element (Nat.le_refl _))

theorem takes_primary (hs : s.Stands text read k) : Takes text read (k + 1) (primary g) s := by
  refine .look ?_
  split
  next hkind => exact takes_leaf hs (by simp [hkind]) trivial (by rintro ⟨⟩)
  next hkind => exact takes_leaf hs (by simp [hkind]) trivial (by rintro ⟨⟩)
  next hkind =>
    refine .advance hs (by simp [hkind]) fun h1 b1 lt => .after h1 fun _ s2 h2 b2 => ?_
    have lt := Nat.lt_of_lt_of_le lt b2.prevEnd
    exact lies_build h2 hs.current_mem lt trivial (by rintro ⟨⟩) (.nil (Nat.le_of_lt lt))
  next hkind =>
    have hend : s.current.kind ≠ .endOfInput := by simp [hkind]
    refine .look (.look ?_)
    split
    · exact takes_leaf hs hend trivial (by rintro ⟨⟩)
    split
    next hcall =>
      simp only [startsCall, Bool.and_eq_true, decide_eq_true_eq] at hcall
      exact takes_call G hs hkind hcall.1
    split
    · refine .look ?_
      refine .advance hs hend fun h1 b1 lt => .after h1 fun pattern s2 h2 b2 => ?_
      have lt := Nat.lt_of_lt_of_le lt b2.prevEnd
      exact lies_build h2 hs.current_mem lt trivial (by rintro ⟨⟩) (.nil (Nat.le_of_lt lt))
    · exact takes_leaf hs hend (.word (hs.mem_tokens hend) hkind) (by rintro ⟨⟩)
  next hkind =>
    refine .look (.look ?_)
    split
    next hquoted =>
      simp only [Bool.and_eq_true, decide_eq_true_eq] at hquoted
      refine takes_bracketName hs hkind fun closing rest htokens _ => ?_
      refine .quoted (hs.tokens.subset ?_) hquoted.1
      simp [htokens]
    next => exact takes_bracketList G hs (by simp [hkind])
  next hkind => exact takes_parenthesized G hs (by simp [hkind])
  next hkind => exact takes_leaf hs (by simp [hkind]) trivial (by rintro ⟨⟩)
  next => exact .refuse

/-- What follows a dot. -/
theorem takes_selector (hs : s.Stands text read k)
    (hkind : s.current.kind = .word ∨ s.current.kind = .leftBracket) {dot : Token}
    (hdot : dot.kind = .dot) (hsuffix : dot :: s.tokens <:+ read.tokens) :
    Takes text read (k + 1) (selector g) s := by
  refine .look ?_
  split
  next hopening =>
    refine takes_bracketName hs hopening fun closing rest htokens hclosing => ?_
    rw [htokens] at hsuffix
    by_cases hinner : s.next.kind = .string
    · exact .quoted (hsuffix.subset (by simp)) hinner
    · obtain ⟨before, hbefore⟩ := hsuffix
      have htokens : [dot, s.current, s.next, closing] <:+: read.tokens :=
        ⟨before, rest, by rw [← hbefore]; simp⟩
      exact .member htokens hdot hopening hinner hclosing
  next hopening =>
    have hword := hkind.resolve_right hopening
    have hend : s.current.kind ≠ .endOfInput := by simp [hword]
    refine .look ?_
    split
    next hparen => exact takes_call G hs hword hparen
    next => exact takes_leaf hs hend (.word (hs.mem_tokens hend) hword) (by rintro ⟨⟩)

theorem takes_selected (hs : s.Stands text read k) : Takes text read (k + 1) (selected g) s := by
  refine .look ?_
  refine .bind hs (takes_primary G hs) fun node t ht _ hnode => ?_
  refine .loop ht (I := fun n u => n.Lies text read (k + 1) s.current.pos.offset u.prevEnd) hnode ?_
  intro node u hu _ hnode
  refine .look (.look ?_)
  split
  next hdot =>
    simp only [Bool.and_eq_true, Bool.or_eq_true, decide_eq_true_eq] at hdot
    have hend : u.current.kind ≠ .endOfInput := by simp [hdot.1]
    refine .advance hu hend fun h1 b1 _ => ?_
    have hsuffix : u.current :: u.advance.tokens <:+ read.tokens := by
      rw [ParserState.advance, ← hu.tokens_eq hend]
      exact hu.tokens
    refine .bind h1 (takes_selector G h1 hdot.2 hdot.1 hsuffix) fun member v hv b2 hmember => ?_
    refine .bind hv (lies_build hv hs.current_mem ?_ trivial (by rintro ⟨⟩) ?_)
      fun n w _ _ hn => .pure hn
    · exact Nat.lt_of_lt_of_le hnode.lt (b1.trans b2).prevEnd
    · refine hnode.slotted .expression (Nat.le_refl _) (Nat.le_refl _) ?_
      exact hmember.slotted .selector (Nat.le_refl _) (b1.le_offset h1) (.nil (Nat.le_refl _))
  refine .look ?_
  split
  · refine .after hu fun _ v hv b1 => ?_
    refine .bind hv (takes_expression G hv) fun index w hw b2 hindex => ?_
    refine .after hw fun _ x hx b3 => ?_
    refine .bind hx (lies_build hx hs.current_mem ?_ trivial (by rintro ⟨⟩) ?_)
      fun n y _ _ hn => .pure hn
    · exact Nat.lt_of_lt_of_le hnode.lt (b1.trans (b2.trans b3)).prevEnd
    · refine hnode.slotted .expression (Nat.le_refl _) (Nat.le_refl _) ?_
      exact hindex.slotted .index (Nat.le_succ k) (b1.le_offset hv) (.nil b3.prevEnd)
  · exact .pure hnode

theorem takes_signed (hs : s.Stands text read k) :
    Leads (signed g) s fun n t =>
      n.Lies text read (k + 1) s.current.pos.offset t.prevEnd ∧ n.form.level? = none := by
  refine .look ?_
  split
  · refine .after hs fun _ t ht b1 => ?_
    refine .bind ht (G.unary ht) fun operand u hu _ ⟨hoperand, hnone⟩ => ?_
    refine .and (lies_build hu hs.current_mem ?_ ?_ (by rintro ⟨⟩) ?_) (.build rfl)
    · exact Nat.lt_of_le_of_lt b1.offset hoperand.lt
    · exact ⟨by simp, by simpa using hnone⟩
    · exact hoperand.slotted .expression (Nat.le_succ k) b1.offset (.nil (Nat.le_refl _))
  · exact (takes_selected G hs).and (level?_selected hs)

end Operands

end KustoFacts.Parser
