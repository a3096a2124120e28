import KustoFacts.Proofs.Query.Grown.Expression

/-!
    Operators grow in order. An operator stands one level deeper than what it is applied to, and
    leaves one level less for what stands in it; a search leaves its sources the level that it has
    itself. An operator that is applied begins with its word, which stands after a pipe or, in a
    subquery, after the opening parenthesis. -/

namespace KustoFacts.Parser

open KustoFacts.Node (Row Slotted)

variable {text : Bytes} {read : Tokens} {g : Grammar} {k k' : Nat} {s : ParserState}

/-- The value of an option has no operators in it. -/
theorem takes_paramValue (hs : s.Stands text read k') : Takes text read k paramValue s := by
  refine .look ?_
  split
  next hkind =>
    have hend : s.current.kind ≠ .endOfInput := by simp [hkind]
    refine .advance hs hend fun h1 b1 lt => ?_
    split
    · exact lies_build h1 hs.current_mem lt trivial (by rintro ⟨⟩) (.nil (Nat.le_of_lt lt))
    · exact lies_build h1 hs.current_mem lt (.word (hs.mem_tokens hend) hkind) (by rintro ⟨⟩)
        (.nil (Nat.le_of_lt lt))
  next hkind => exact takes_leaf hs (by simp [hkind]) trivial (by rintro ⟨⟩)
  next hkind => exact takes_leaf hs (by simp [hkind]) trivial (by rintro ⟨⟩)
  next hkind => exact takes_leaf hs (by simp [hkind]) trivial (by rintro ⟨⟩)
  next hkind =>
    refine .look ?_
    split
    next hnumber =>
      refine .advance hs (by simp [hkind]) fun h1 b1 lt1 => ?_
      refine .advance h1 (by simp [hnumber]) fun h2 b2 lt2 => ?_
      refine .bind h2 (.and (lies_build (k := k) h2 h1.current_mem lt2 trivial (by rintro ⟨⟩)
        (.nil (Nat.le_of_lt lt2))) (.build (Q := fun n _ => n.form.level? = none) rfl))
        fun literal s3 h3 b3 ⟨hliteral, hnone⟩ => ?_
      refine lies_build h3 hs.current_mem ?_ ⟨by simp, by simpa using hnone⟩ (by rintro ⟨⟩) ?_
      · exact Nat.lt_of_le_of_lt b1.offset hliteral.lt
      · exact hliteral.slotted .expression (Nat.le_refl _) b1.offset (.nil (Nat.le_refl _))
    next => exact .refuse
  next => exact .refuse

theorem takesAll_params (op : Bytes) (hs : s.Stands text read k') :
    TakesAll text read k (params g op) s := by
  have parameter {t : ParserState} (ht : t.Stands text read k') :
      Takes text read k (namedParameter g.bound) t := by
    refine .look ?_
    refine .after ht fun _ s1 h1 b1 => .after h1 fun name s2 h2 b2 => ?_
    refine .expect h2 rfl fun _ h3 b3 lt => ?_
    refine .bind h3 (takes_paramValue (k := k) h3) fun value s4 h4 b4 hvalue => ?_
    have b13 := b1.trans (b2.trans b3)
    refine lies_build h4 ht.current_mem ?_ ?_ (by rintro ⟨⟩) ?_
    · exact Nat.lt_of_le_of_lt b13.offset hvalue.lt
    · exact List.forall_mem_singleton.2 (by rw [Node.span_inSlot]; exact hvalue.solid)
    · exact hvalue.slotted .value (Nat.le_refl _) b13.offset (.nil (Nat.le_refl _))
  refine .loop hs (I := Found text read k s.prevEnd) (.nil (Nat.le_refl _)) ?_
  intro found t ht _ hfound
  refine .after ht fun starts u hu b1 => ?_
  have hfound : Found text read k s.prevEnd found u := Row.widen hfound (Nat.le_refl _) b1.prevEnd
  split
  · refine .bind hu (parameter hu) fun n v _ _ hn => .pure ?_
    exact hfound.found (hn.row.widen hu.prevEnd (Nat.le_refl _))
  · exact .pure hfound

/-- The kind of a join that gives one is not empty, because the value of an option is not. -/
theorem kindText?_ne {params : List Node} (h : ∀ n ∈ params, n.Grown text read k) :
    kindText? text params ≠ some [] := by
  intro hkind
  simp only [kindText?, Option.bind_eq_bind, Option.bind_eq_some_iff, Option.pure_def,
    Option.some.injEq] at hkind
  obtain ⟨param, hparam, value, hvalue, htext⟩ := hkind
  have hform : param.form = .namedParameter (bytes "kind") := by simpa using List.find?_some hparam
  cases h param (List.mem_of_find?_eq_some hparam) with
  | @mk _ role form span first children token starts solid inside ordered spelled operator below =>
    obtain rfl : form = .namedParameter (bytes "kind") := hform
    have hmem : value ∈ children := List.mem_of_find?_eq_some hvalue
    have hsolid : value.span.start < value.span.stop := spelled value hmem
    have hstop := (below value hmem).stop_le
    have hlength : (text.slice value.span.start value.span.stop).length = 0 := by
      rw [show text.slice _ _ = [] from htext, List.length_nil]
    rw [Bytes.slice, List.length_take, List.length_drop] at hlength
    omega

/-! ### Words of operators -/

theorem begins_joinLike (g : Grammar) (form : Option Bytes → Form) (s : ParserState) :
    Leads (joinLike g form) s fun n _ => n.first = s.current ∧ ∃ kind, n.form = form kind := by
  refine .look (.anyhow fun _ _ => .anyhow fun _ _ => .anyhow fun _ _ => .anyhow fun _ _ => .look ?_)
  exact .build ⟨rfl, _, rfl⟩

theorem begins_union (g : Grammar) (s : ParserState) :
    Leads (union g) s fun n _ => n.first = s.current := by
  refine .look (.anyhow fun _ _ => .anyhow fun _ _ => .anyhow fun _ _ => ?_)
  exact .build rfl

theorem begins_operator (g : Grammar) (s : ParserState) :
    Leads (operator g) s fun n _ => n.first = s.current := by
  refine .look (.anyhow fun _ _ => .anyhow fun _ _ => .anyhow fun _ _ => .anyhow fun _ _ =>
    .anyhow fun _ _ => ?_)
  split
  · exact .refuse_bind
  · exact .build rfl

/-- Whether a subquery starts is seen without moving. -/
theorem leads_startsSubquery {β : Type} {f : Bool → Parser β} {Q : β → ParserState → Prop}
    (yes : s.current.kind = .leftParen → Leads (f true) s Q) (no : Leads (f false) s Q) :
    Leads (startsSubquery >>= f) s Q := by
  obtain ⟨x, hx, hparen⟩ := asks_startsSubquery s
  intro b u hrun
  rw [run_bind, hx] at hrun
  cases x with
  | true => exact yes (hparen rfl) b u hrun
  | false => exact no b u hrun

/-- An operator is applied if the token before its word is a pipe or an opening parenthesis. -/
theorem applies_next {op : Node} (hs : s.Stands text read k)
    (hbefore : s.current.kind = .pipe ∨ s.current.kind = .leftParen)
    (hop : OperatesFrom s.next op) : read.Applies op := by
  obtain ⟨hfirst, hoperates⟩ := hop
  refine ⟨hoperates, s.current, ?_, hbefore⟩
  have hnext : s.next.kind = .word := hfirst ▸ hoperates.word
  rw [hfirst]
  refine hs.pair_infix ?_ (by simp [hnext])
  rcases hbefore with hkind | hkind <;> simp [hkind]

section Operators

variable (G : Grows text read g)
include G

theorem takesAll_expressions (hs : s.Stands text read k) :
    TakesAll text read k (itemsByComma g.bound (expression g)) s :=
  takesAll_itemsByComma hs fun _ => takes_expression G

theorem takesAll_conditions (hs : s.Stands text read k) :
    TakesAll text read k (conditions g) s := by
  refine .look ?_
  split
  · refine .after hs fun _ t ht b1 => ?_
    exact (takesAll_expressions G ht).mono fun ns u h => h.widen b1.prevEnd (Nat.le_refl _)
  · exact .pure (.nil (Nat.le_refl _))

/-- A join or a lookup, whichever form is given. -/
theorem takes_joinLike (form : Option Bytes → Form) (hs : s.Stands text read k)
    (hkind : s.current.kind ≠ .endOfInput)
    (hspelled : ∀ kind children, kind ≠ some [] → (form kind).Spelled read children)
    (hroom : ∀ kind r, (form kind).room (k + 1) r = k) :
    Takes text read (k + 1) (joinLike g form) s := by
  refine .look ?_
  refine .advance hs hkind fun h1 b1 lt => ?_
  refine .bind h1 (takesAll_params (k := k) _ h1) fun params s2 h2 b2 hparams => ?_
  refine .bind h2 (takes_expression G h2) fun right s3 h3 b3 hright => ?_
  refine .bind h3 (takesAll_conditions G h3) fun conditions s4 h4 b4 hconditions => .look ?_
  have hroom (r : Role) : k ≤ (form (kindText? s4.source params)).room (k + 1) r :=
    Nat.le_of_eq (hroom _ r).symm
  have hnamed : kindText? s4.source params ≠ some [] := by
    rw [h4.source]
    exact kindText?_ne hparams.grown
  refine lies_build h4 hs.current_mem ?_ (hspelled _ _ hnamed) (fun _ => Nat.succ_pos _) ?_
  · exact Nat.lt_of_lt_of_le lt (b2.trans (b3.trans b4)).prevEnd
  · refine Slotted.widen ?_ (Nat.le_of_lt lt) (Nat.le_refl _)
    refine (hparams.slotted .parameter (hroom _)).append ?_
    exact hright.slotted .right (hroom _) h2.prevEnd (hconditions.slotted .condition (hroom _))

theorem takes_union (hs : s.Stands text read k) (hkind : s.current.kind ≠ .endOfInput) :
    Takes text read (k + 1) (union g) s := by
  refine .look ?_
  refine .advance hs hkind fun h1 b1 lt => ?_
  refine .bind h1 (takesAll_params (k := k) _ h1) fun params s2 h2 b2 hparams => ?_
  refine .bind h2 (takesAll_expressions G h2) fun operands s3 h3 b3 hoperands => ?_
  refine lies_build h3 hs.current_mem ?_ trivial (fun _ => Nat.succ_pos _) ?_
  · exact Nat.lt_of_lt_of_le lt (b2.trans b3).prevEnd
  · refine Slotted.widen ?_ (Nat.le_of_lt lt) (Nat.le_refl _)
    exact (hparams.slotted .parameter (Nat.le_refl _)).append
      (hoperands.slotted .operand (Nat.le_refl _))

/-- Operators piped after a source, which may have more room than they have. -/
theorem lies_pipes {first : Token} {source : Node} (hs : s.Stands text read k) (hk : k ≤ k')
    (hfirst : first ∈ read.all) (hsource : source.Lies text read k' first.pos.offset s.prevEnd) :
    Leads (pipes g first source) s fun n t => n.Lies text read k' first.pos.offset t.prevEnd := by
  refine .loop hs (I := fun n t => n.Lies text read k' first.pos.offset t.prevEnd) hsource ?_
  intro source t ht _ hsource
  refine .accept ht (fun hpipe hu b1 => ?_) (.pure hsource)
  refine .bind hu (G.pipeOperator hu) fun op v hv b2 hop => ?_
  obtain ⟨hop, hword⟩ := hop
  refine .bind hv (lies_build hv hfirst ?_ ?_ (by rintro ⟨⟩) ?_) fun n w _ _ hn => .pure hn
  · exact Nat.lt_of_lt_of_le hsource.lt (b1.trans b2).prevEnd
  · have happlies := (applies_next ht (.inl hpipe) hword).inSlot .operator
    refine List.forall_mem_cons.2 ⟨?_, List.forall_mem_singleton.2 fun _ => happlies⟩
    simp
  · refine hsource.slotted .expression (Nat.le_refl _) (Nat.le_refl _) ?_
    exact hop.slotted .operator hk (b1.le_offset hu) (.nil (Nat.le_refl _))

theorem takes_subquery (hs : s.Stands text read k) (hparen : s.current.kind = .leftParen) :
    Takes text read k (subquery g) s := by
  refine .look ?_
  refine .advance hs (by simp [hparen]) fun h1 b1 _ => .look ?_
  refine .bind h1 (G.pipeOperator h1) fun op s2 h2 b2 hop => ?_
  obtain ⟨hop, hword⟩ := hop
  refine .bind h2 (lies_build (k := k) h2 h1.current_mem hop.lt ?_ (by rintro ⟨⟩) ?_)
    fun head s3 h3 b3 hhead => ?_
  · have happlies := (applies_next hs (.inr hparen) hword).inSlot .operator
    exact List.forall_mem_singleton.2 fun _ => happlies
  · exact hop.slotted .operator (Nat.le_refl _) (Nat.le_refl _) (.nil (Nat.le_refl _))
  refine .bind h3 (lies_pipes G h3 (Nat.le_refl _) h1.current_mem hhead)
    fun inner s4 h4 b4 hinner => ?_
  refine .after h4 fun _ s5 h5 b5 => ?_
  refine lies_build h5 hs.current_mem ?_ trivial (by rintro ⟨⟩) ?_
  · exact Nat.lt_of_le_of_lt b1.offset (Nat.lt_of_lt_of_le hinner.lt b5.prevEnd)
  · exact hinner.slotted .expression (Nat.le_refl _) b1.offset (.nil b5.prevEnd)

/-- Statements in braces end before the closing brace. -/
theorem row_braced (hs : s.Stands text read k) :
    Leads (braced g) s fun n t => Row text read k s.prevEnd t.prevEnd [n] := by
  refine .bind hs (G.query _ hs) fun query s1 h1 b1 hquery => ?_
  refine .expect h1 rfl fun _ h2 b2 lt => .pure ?_
  exact hquery.widen (Nat.le_refl _) (Nat.le_of_lt lt)

theorem takesAll_schemaAndRows (hs : s.Stands text read k) :
    TakesAll text read k (schemaAndRows g) s := by
  refine .look ?_
  refine .expect hs rfl fun _ h1 b1 lt1 => ?_
  refine .bind h1 (takesAll_itemsUntil h1 fun _ => takes_operatorArgument G)
    fun columns s2 h2 b2 hcolumns => .after h2 fun _ s3 h3 b3 => ?_
  refine .bind h3 (lies_build h3 hs.current_mem ?_ trivial (by rintro ⟨⟩)
    ((hcolumns.slotted .element (Nat.le_refl _)).widen (Nat.le_of_lt lt1) b3.prevEnd))
    fun schema s4 h4 b4 hschema => .look ?_
  · exact Nat.lt_of_lt_of_le lt1 (b2.trans b3).prevEnd
  refine .expect h4 rfl fun _ h5 b5 lt2 => ?_
  refine .bind h5 (takesAll_itemsUntil h5 fun _ => takes_expression G)
    fun values s6 h6 b6 hvalues => .after h6 fun _ s7 h7 b7 => ?_
  refine .bind h7 (lies_build h7 h4.current_mem ?_ trivial (by rintro ⟨⟩)
    ((hvalues.slotted .element (Nat.le_refl _)).widen (Nat.le_of_lt lt2) b7.prevEnd))
    fun rows s8 h8 b8 hrows => .pure ?_
  · exact Nat.lt_of_lt_of_le lt2 (b6.trans b7).prevEnd
  have hrows' := hrows.row.widen h4.prevEnd (Nat.le_refl _)
  exact (hschema.row.widen hs.prevEnd (Nat.le_refl _)).append hrows'

omit G in
/-- The sources of a search stand where the node that they are taken from does. -/
theorem row_sourceList {n : Node} {lo hi : Nat} (h : n.Lies text read k lo hi) :
    Row text read k lo hi (sourceList n) := by
  obtain ⟨hgrown, hafter, hsolid, hbefore⟩ := h
  unfold sourceList
  split
  · cases hgrown with
    | mk token starts solid inside ordered spelled operator below =>
      exact ⟨below, ordered.widen hafter hbefore⟩
  · cases hgrown with
    | mk token starts solid inside ordered spelled operator below =>
      exact ⟨below, ordered.widen hafter hbefore⟩
  · exact Node.Lies.row ⟨hgrown, hafter, hsolid, hbefore⟩

/-- An operator that gives its rows names no sources. -/
theorem takesAll_given (keyword : Bytes) (hs : s.Stands text read k) :
    Leads (given g keyword) s fun ns t => Row text read k s.prevEnd t.prevEnd ns ∧
      (ns = [] ∨ searched g keyword = pure []) := by
  unfold given
  split
  next hkeyword =>
    have hsearched : searched g keyword = pure [] := by
      simp only [Bool.or_eq_true, decide_eq_true_eq] at hkeyword
      rcases hkeyword with rfl | rfl <;> rfl
    exact (takesAll_schemaAndRows G hs).mono fun ns t hrow => ⟨hrow, .inr hsearched⟩
  next => exact .pure ⟨.nil (Nat.le_refl _), .inl rfl⟩

theorem takesAll_searched (keyword : Bytes) (hs : s.Stands text read k) :
    TakesAll text read (k + 1) (searched g keyword) s := by
  unfold searched
  split
  · refine .look (.look ?_)
    split
    · refine .after hs fun _ t ht b1 => .bind ht (G.sources ht) fun n u hu _ hn => .pure ?_
      exact row_sourceList { hn with after := Nat.le_trans (b1.le_offset ht) hn.after }
    · exact .pure (.nil (Nat.le_refl _))
  · exact .pure (.nil (Nat.le_refl _))

omit G in
/-- Given rows stand after the sources, because there are no rows or no sources. -/
theorem rows_given {lo mid hi : Nat} {given sources : List Node}
    (hgiven : Row text read k lo mid given) (hsources : Row text read (k + 1) mid hi sources)
    (hnone : given = [] ∨ sources = []) :
    ∃ m, Row text read (k + 1) lo m sources ∧ Row text read k m hi given := by
  rcases hnone with rfl | rfl
  · exact ⟨hi, hsources.widen hgiven.ordered.le (Nat.le_refl _), .nil (Nat.le_refl _)⟩
  · exact ⟨lo, .nil (Nat.le_refl _), hgiven.widen (Nat.le_refl _) hsources.ordered.le⟩

theorem row_body {lo : Nat} {found : List Node} (hs : s.Stands text read k)
    (hfound : Found text read k lo found s) :
    Leads (body g found) s fun ns t => Row text read k lo t.prevEnd ns := by
  refine .loop hs (I := Found text read k lo) hfound ?_
  intro found t ht _ hfound
  -- whatever is read from a later state on stands after what was found
  have more {u v : ParserState} {n : Node} (hrow : Row text read k u.prevEnd v.prevEnd [n])
      (b : t.Before u) : Found text read k lo (n :: found) v :=
    (Row.widen hfound (Nat.le_refl _) b.prevEnd).found hrow
  refine .look ?_
  split
  · exact .pure hfound
  refine .look ?_
  split
  · exact .after ht fun _ u _ b1 => .pure (Row.widen hfound (Nat.le_refl _) b1.prevEnd)
  split
  · refine .bind ht (R := fun n u => Row text read k t.prevEnd u.prevEnd [n]) ?_
      fun n u _ _ hn => .pure (more hn (.refl t))
    refine .after ht fun _ u hu b1 => ?_
    exact (row_braced G hu).mono fun n v hn => hn.widen b1.prevEnd (Nat.le_refl _)
  refine leads_startsSubquery (fun hparen => ?_) ?_
  · refine .bind ht (takes_subquery G ht hparen) fun n v _ _ hn => .pure ?_
    exact more (hn.row.widen ht.prevEnd (Nat.le_refl _)) (.refl t)
  · refine .bind ht (takes_operatorArgument G ht) fun n v _ _ hn => .pure ?_
    exact more (hn.row.widen ht.prevEnd (Nat.le_refl _)) (.refl t)

theorem takes_operator (hs : s.Stands text read k) (hkind : s.current.kind ≠ .endOfInput) :
    Takes text read (k + 1) (operator g) s := by
  refine .look ?_
  refine .advance hs hkind fun h1 b1 lt => ?_
  refine .bind h1 (takesAll_params (k := k) _ h1) fun params s2 h2 b2 hparams => ?_
  refine .bind h2 (takesAll_given G _ h2) fun given s3 h3 b3 hgiven => ?_
  refine .bind h3 (R := fun ns t => Row text read (k + 1) s3.prevEnd t.prevEnd ns ∧
    (given = [] ∨ ns = [])) ?_ fun sources s4 h4 b4 hsources => ?_
  · intro ns t hrun
    refine ⟨takesAll_searched G _ h3 ns t hrun, hgiven.2.imp_right fun hpure => ?_⟩
    rw [hpure] at hrun
    cases hrun
    rfl
  obtain ⟨m, hsources, hgiven⟩ := rows_given hgiven.1 hsources.1 hsources.2
  have hfound : Found text read k m given.reverse s4 := by
    rw [Found, List.reverse_reverse]
    exact hgiven
  refine .bind h4 (row_body G h4 hfound) fun arguments s5 h5 b5 harguments => ?_
  have finish : Leads (build s.current (.operator s.current.text)
      (params.map (·.inSlot .parameter) ++ sources.map (·.inSlot .operand) ++
        arguments.map (·.inSlot .argument))) s5
      fun n t => n.Lies text read (k + 1) s.current.pos.offset t.prevEnd := by
    refine lies_build h5 hs.current_mem ?_ trivial (fun _ => Nat.succ_pos _) ?_
    · exact Nat.lt_of_lt_of_le lt (b2.trans (b3.trans (b4.trans b5))).prevEnd
    · refine Slotted.widen ?_ (Nat.le_of_lt lt) (Nat.le_refl _)
      refine ((hparams.slotted .parameter (Nat.le_refl _)).append ?_).append
        (harguments.slotted .argument (Nat.le_refl _))
      exact hsources.slotted .operand (Nat.le_refl _)
  split
  · exact .refuse_bind
  · exact finish

omit G in
theorem kind_of_startsLeading {t next : Token} (h : startsLeading t next = true) :
    t.kind ≠ .endOfInput := by
  intro hkind
  simp [startsLeading, hkind] at h

theorem takes_leading (hs : s.Stands text read k) (hkind : s.current.kind ≠ .endOfInput) :
    Takes text read (k + 1) (leading g) s := by
  refine .look ?_
  split
  · exact takes_union G hs hkind
  · exact takes_operator G hs hkind

theorem takes_pipeOperator (hs : s.Stands text read k) :
    Leads (pipeOperator g) s fun n t =>
      n.Lies text read (k + 1) s.current.pos.offset t.prevEnd ∧ OperatesFrom s.current n := by
  refine .look ?_
  split
  · exact .refuse
  next hword =>
    have hword : s.current.kind = .word := Decidable.not_not.1 hword
    have hkind : s.current.kind ≠ .endOfInput := by simp [hword]
    have operates {n : Node} (hfirst : n.first = s.current) (hknown : s.current.text ∈ pipeOperators)
        (hjoins : s.current.text = bytes "join" ∨ s.current.text = bytes "lookup" →
          n.kind = .joinOperator ∨ n.kind = .lookupOperator) : OperatesFrom s.current n :=
      ⟨hfirst, hfirst ▸ hword, hfirst ▸ hknown, hfirst ▸ hjoins⟩
    split
    next hjoin =>
      refine ((takes_joinLike G .join hs hkind (fun _ _ h => h) fun _ _ => rfl).and
        (begins_joinLike g .join s)).mono fun n t hn => ⟨hn.1, ?_⟩
      obtain ⟨-, hfirst, kind, hform⟩ := hn
      exact operates hfirst (hjoin ▸ by decide) fun _ => .inl (by rw [Node.kind, hform]; rfl)
    split
    next hlookup =>
      refine ((takes_joinLike G .lookup hs hkind (fun _ _ h => h) fun _ _ => rfl).and
        (begins_joinLike g .lookup s)).mono fun n t hn => ⟨hn.1, ?_⟩
      obtain ⟨-, hfirst, kind, hform⟩ := hn
      exact operates hfirst (hlookup ▸ by decide) fun _ => .inr (by rw [Node.kind, hform]; rfl)
    -- the other words name neither a join nor a lookup
    next hjoin hlookup =>
      have hjoins {n : Node} (h : s.current.text = bytes "join" ∨ s.current.text = bytes "lookup") :
          n.kind = .joinOperator ∨ n.kind = .lookupOperator :=
        (h.elim hjoin hlookup).elim
      split
      next hunion =>
        refine ((takes_union G hs hkind).and (begins_union g s)).mono fun n t hn => ⟨hn.1, ?_⟩
        exact operates hn.2 (hunion ▸ by decide) hjoins
      split
      next hknown =>
        refine ((takes_operator G hs hkind).and (begins_operator g s)).mono fun n t hn => ⟨hn.1, ?_⟩
        exact operates hn.2 (List.contains_iff_mem.1 hknown) hjoins
      · exact .refuse

end Operators

end KustoFacts.Parser
