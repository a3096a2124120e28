import KustoFacts.Proofs.Query.Grown.Primary

/-!
    Statements grow in order, and so do queries: also what is skipped after a fault stands behind the
    statements that were found before. -/

namespace KustoFacts.Parser

open KustoFacts.Node (Row Slotted)

variable {text : Bytes} {read : Tokens} {g : Grammar} {k k' : Nat} {s : ParserState}

section Statements

theorem lies_nameDeclaration (hs : s.Stands text read k') :
    Leads nameDeclaration s fun named t =>
      named.2.Lies text read k s.current.pos.offset t.prevEnd := by
  refine .look ?_
  split
  next hkind =>
    refine .advance hs (by simp [hkind]) fun h1 b1 lt => ?_
    exact .bind h1 (lies_build h1 hs.current_mem lt trivial (by rintro ⟨⟩) (.nil (Nat.le_of_lt lt)))
      fun n t _ _ hn => .pure hn
  refine .look (.look ?_)
  split
  next hbracket =>
    simp only [Bool.and_eq_true, decide_eq_true_eq] at hbracket
    refine .advance hs (by simp [hbracket.1.1]) fun h1 b1 lt => .look ?_
    refine .after h1 fun _ s2 h2 b2 => .after h2 fun _ s3 h3 b3 => ?_
    have lt := Nat.lt_of_lt_of_le lt (b2.trans b3).prevEnd
    exact .bind h3 (lies_build h3 hs.current_mem lt trivial (by rintro ⟨⟩) (.nil (Nat.le_of_lt lt)))
      fun n t _ _ hn => .pure hn
  next => exact .refuse

variable (G : Grows text read g)
include G

theorem takes_pipeExpression (hs : s.Stands text read k) :
    Takes text read (k + 1) (pipeExpression g) s := by
  refine .look (.look ?_)
  split
  next hleading =>
    exact .bind hs (takes_leading G hs (kind_of_startsLeading hleading)) fun head t ht _ hhead =>
      lies_pipes G ht (Nat.le_succ k) hs.current_mem hhead
  next =>
    exact .bind hs (takes_expression G hs) fun head t ht _ hhead =>
      lies_pipes G ht (Nat.le_succ k) hs.current_mem (hhead.mono (Nat.le_succ k))

/-- Parameters stand between the parentheses around them. -/
theorem takesAll_parameterList (hs : s.Stands text read k) :
    Leads (parameterList g) s fun ns t => s.current.pos.offset < t.prevEnd ∧
      Row text read k s.current.pos.offset t.prevEnd ns := by
  have parameters (t : ParserState) (ht : t.Stands text read k) :
      Takes text read k (parameter g) t := by
    refine .look ?_
    refine .expect ht rfl fun _ h1 b1 lt => .after h1 fun _ s2 h2 b2 => .after h2 fun type s3 h3 b3 => ?_
    refine .bind h3 (takesAll_assigned G h3) fun given s4 h4 b4 hgiven => ?_
    refine lies_build h4 ht.current_mem ?_ trivial (by rintro ⟨⟩) ?_
    · exact Nat.lt_of_lt_of_le lt (b2.trans (b3.trans b4)).prevEnd
    · refine Slotted.widen (hgiven.filled fun _ => rfl) ?_ (Nat.le_refl _)
      exact Nat.le_of_lt (Nat.lt_of_lt_of_le lt (b2.trans b3).prevEnd)
  refine .expect hs rfl fun _ h1 b1 lt => ?_
  refine .bind h1 (takesAll_itemsUntil h1 parameters) fun params s2 h2 b2 hparams => ?_
  refine .after h2 fun _ s3 h3 b3 => .pure ⟨Nat.lt_of_lt_of_le lt (b2.trans b3).prevEnd, ?_⟩
  have hslotted : Slotted text read .query k s.advance.prevEnd s2.prevEnd
      (params.map (·.inSlot .parameter)) := hparams.slotted .parameter (Nat.le_refl _)
  exact ⟨hslotted.below, hslotted.ordered.widen (Nat.le_of_lt lt) b3.prevEnd⟩

theorem takes_functionDeclaration (hs : s.Stands text read k) :
    Takes text read k (functionDeclaration g) s := by
  refine .look ?_
  refine .after hs fun view s1 h1 b1 => ?_
  refine .bind h1 (takesAll_parameterList G h1) fun params s2 h2 b2 hparams => ?_
  obtain ⟨lt, hparams⟩ := hparams
  refine .after h2 fun _ s3 h3 b3 => .bind h3 (row_braced G h3) fun body s4 h4 b4 hbody => ?_
  refine lies_build h4 hs.current_mem ?_ trivial (by rintro ⟨⟩) ?_
  · exact Nat.lt_of_le_of_lt b1.offset (Nat.lt_of_lt_of_le lt (b3.trans b4).prevEnd)
  · have hparams := hparams.widen b1.offset b3.prevEnd
    exact (hparams.filled fun _ => rfl).append (hbody.slotted .body (Nat.le_refl _))

theorem takes_letStatement (hs : s.Stands text read k) :
    Takes text read (k + 1) (letStatement g) s := by
  refine .look ?_
  refine .after hs fun _ s1 h1 b1 => ?_
  refine .bind h1 (lies_nameDeclaration (k := k) h1) fun ⟨name, declared⟩ s2 h2 b2 hdeclared => ?_
  have hdeclared : declared.Lies text read k s1.current.pos.offset s2.prevEnd := hdeclared
  refine .after h2 fun _ s3 h3 b3 => .after h3 fun starts s4 h4 b4 => ?_
  have finish {value : Node} {t : ParserState} (ht : t.Stands text read k)
      (hvalue : value.Lies text read (k + 1) s4.current.pos.offset t.prevEnd) :
      Leads (build s.current (.letStatement name) [declared.inSlot .name, value.inSlot .value]) t
        fun n u => n.Lies text read (k + 1) s.current.pos.offset u.prevEnd := by
    have hbetween := (b3.trans b4).le_offset h4
    refine lies_build ht hs.current_mem ?_ trivial (by rintro ⟨⟩) ?_
    · exact Nat.lt_of_le_of_lt (b1.trans (b2.trans (b3.trans b4))).offset hvalue.lt
    · refine hdeclared.slotted .name (Nat.le_succ k) b1.offset ?_
      exact hvalue.slotted .value (Nat.le_refl _) hbetween (.nil (Nat.le_refl _))
  split
  · exact .bind h4 (takes_functionDeclaration G h4) fun value t ht _ hvalue =>
      finish ht (hvalue.mono (Nat.le_succ k))
  · exact .bind h4 (takes_pipeExpression G h4) fun value t ht _ hvalue => finish ht hvalue

theorem takes_setStatement (hs : s.Stands text read k) (hkind : s.current.kind ≠ .endOfInput) :
    Takes text read k (setStatement g) s := by
  refine .look ?_
  refine .advance hs hkind fun h1 b1 lt => .look ?_
  refine .after h1 fun _ s2 h2 b2 => .after h2 fun name s3 h3 b3 => ?_
  refine .bind h3 (takesAll_assigned G h3) fun given s4 h4 b4 hgiven => ?_
  have lt := Nat.lt_of_lt_of_le lt (b2.trans b3).prevEnd
  refine lies_build h4 hs.current_mem (Nat.lt_of_lt_of_le lt b4.prevEnd) trivial (by rintro ⟨⟩) ?_
  exact Slotted.widen (hgiven.filled fun _ => rfl) (Nat.le_of_lt lt) (Nat.le_refl _)

theorem takes_declareStatement (hs : s.Stands text read k) :
    Takes text read k (declareStatement g) s := by
  refine .look ?_
  refine .after hs fun _ s1 h1 b1 => .after h1 fun _ s2 h2 b2 => ?_
  refine .bind h2 (takesAll_parameterList G h2) fun params s3 h3 b3 hparams => ?_
  obtain ⟨lt, hparams⟩ := hparams
  have b12 := b1.trans b2
  refine lies_build h3 hs.current_mem (Nat.lt_of_le_of_lt b12.offset lt) trivial (by rintro ⟨⟩) ?_
  exact Slotted.widen (hparams.filled fun _ => rfl) b12.offset (Nat.le_refl _)

theorem takes_aliasStatement (hs : s.Stands text read k) :
    Takes text read k (aliasStatement g) s := by
  refine .look ?_
  refine .after hs fun _ s1 h1 b1 => .after h1 fun _ s2 h2 b2 => ?_
  refine .after h2 fun ⟨name, declared⟩ s3 h3 b3 => .after h3 fun _ s4 h4 b4 => ?_
  refine .bind h4 (takes_expression G h4) fun value s5 h5 b5 hvalue => ?_
  have b14 := b1.trans (b2.trans (b3.trans b4))
  refine lies_build h5 hs.current_mem (Nat.lt_of_le_of_lt b14.offset hvalue.lt) trivial
    (by rintro ⟨⟩) ?_
  exact hvalue.slotted .value (Nat.le_refl _) b14.offset (.nil (Nat.le_refl _))

theorem takes_statement (hs : s.Stands text read k) : Takes text read (k + 1) (statement g) s := by
  refine .look (.look ?_)
  split
  · exact takes_letStatement G hs
  split
  next hset =>
    simp only [Token.isWord, Bool.and_eq_true, decide_eq_true_eq] at hset
    exact (takes_setStatement G hs (by simp [hset.1.1])).mono fun n t hn => hn.mono (Nat.le_succ k)
  split
  · exact (takes_declareStatement G hs).mono fun n t hn => hn.mono (Nat.le_succ k)
  split
  · exact (takes_aliasStatement G hs).mono fun n t hn => hn.mono (Nat.le_succ k)
  · refine .bind hs (takes_pipeExpression G hs) fun node t ht _ hnode => ?_
    refine lies_build ht hs.current_mem hnode.lt trivial (by rintro ⟨⟩) ?_
    exact hnode.slotted .expression (Nat.le_refl _) (Nat.le_refl _) (.nil (Nat.le_refl _))

/-- Statements found from an offset on, latest first; as long as nothing is consumed they end where
    they begin. -/
def FoundFrom (text : Bytes) (read : Tokens) (k lo : Nat) (found : List Node) (t : ParserState) :
    Prop := Row text read k lo (max lo t.prevEnd) found.reverse

theorem found_statementRound {stop : TokenKind} {lo : Nat} {found : List Node}
    (hs : s.Stands text read k) (hlo : lo ≤ s.current.pos.offset)
    (hfound : FoundFrom text read (k + 1) lo found s) :
    Leads (statementRound g stop found) s (Leads.OfRound (FoundFrom text read (k + 1) lo)
      fun ns t => Row text read (k + 1) lo (max lo t.prevEnd) ns) := by
  have later {found : List Node} {t u : ParserState} (h : FoundFrom text read (k + 1) lo found t)
      (b : t.Before u) : FoundFrom text read (k + 1) lo found u := by
    refine Row.widen h (Nat.le_refl _) ?_
    have := b.prevEnd
    omega
  refine .look ?_
  split
  · exact .pure hfound
  refine .after hs fun semicolon t ht b1 => ?_
  have hfound := later hfound b1
  split
  · exact .pure hfound
  refine .look ?_
  refine .bind ht (takes_statement G ht).attempt fun read' u hu b2 hread => .look ?_
  have hmore : FoundFrom text read (k + 1) lo (read'.toList ++ found) u := by
    cases read' with
    | none => exact later hfound b2
    | some n =>
      have hn := hread n rfl
      have hrow : Row text read (k + 1) (max lo t.prevEnd) (max lo u.prevEnd) [n] := by
        refine hn.row.widen ?_ (Nat.le_max_right _ _)
        exact Nat.max_le.2 ⟨Nat.le_trans hlo b1.offset, ht.prevEnd⟩
      exact Row.found hfound hrow
  split
  · exact .after hu fun _ v _ b3 => .pure (later hmore b3)
  split
  · exact .after hu fun _ v hv b3 => .after hv fun _ w _ b4 => .pure (later hmore (b3.trans b4))
  · exact .pure hmore

/-- The node of a query covers its statements, and what was skipped after faults. -/
theorem row_query (stop : TokenKind) (hs : s.Stands text read k) :
    Leads (query g stop) s fun n t => Row text read k s.prevEnd t.current.pos.offset [n] := by
  refine .look ?_
  refine .bind hs (R := fun ns t =>
    Row text read k s.current.pos.offset (max s.current.pos.offset t.prevEnd) ns)
    (.nested hs ?_ ?_) fun statements t ht b1 hstatements => ?_
  · rintro k' t ht rfl hcurrent -
    rw [← hcurrent]
    refine .loop ht (I := FoundFrom text read (k' + 1) t.current.pos.offset)
      (.nil (Nat.le_max_left _ _)) ?_
    intro found u hu b1 hfound
    exact found_statementRound G hu b1.offset hfound
  · intro t ht _
    exact .after ht fun _ u _ _ => .pure (.nil (Nat.le_max_left _ _))
  · intro n u hrun
    cases hrun
    have hslotted : Slotted text read .query k s.current.pos.offset
        (max s.current.pos.offset t.prevEnd) (statements.map (·.inSlot .statement)) :=
      hstatements.slotted .statement (Nat.le_refl _)
    have hprevEnd := ht.prevEnd_le
    have hcurrent := hs.spells_current
    have hstop : max s.current.pos.offset t.prevEnd ≤ text.length :=
      Nat.max_le.2 ⟨Nat.le_trans hcurrent.start hcurrent.stop, hprevEnd⟩
    refine ⟨List.forall_mem_singleton.2 ?_, hs.prevEnd, hslotted.ordered.le, ?_⟩
    · refine .mk hs.current_mem rfl (absurd rfl) hstop hslotted.ordered trivial ?_ hslotted.below
      rintro ⟨⟩
    · exact Nat.max_le.2 ⟨b1.offset, ht.prevEnd⟩

end Statements

end KustoFacts.Parser
