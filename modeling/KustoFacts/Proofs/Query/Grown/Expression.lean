import KustoFacts.Proofs.Query.Grown

/-!
    Expressions grow in order, whether faults are reported or not. There is one lemma for each
    production, given that the goals it asks for grow nodes in order (`Grows`): what the production
    returns begins at the current token or after it, ends where the last consumed token does, and
    has room for what stands in it. -/

namespace KustoFacts.Parser

open KustoFacts.Node (Row Slotted InOrder)

variable {text : Bytes} {read : Tokens} {g : Grammar} {k k' : Nat} {s : ParserState}

/-- A step reads a node that stands between the current token's beginning and what is consumed in
    the end. -/
def Takes (text : Bytes) (read : Tokens) (k : Nat) (p : Parser Node) (s : ParserState) : Prop :=
  Leads p s fun n t => n.Lies text read k s.current.pos.offset t.prevEnd

/-- No infix operator that binds tighter than a level goes on here. A star goes on only before an
    operand. -/
def Halts (level : Nat) (t : ParserState) : Prop :=
  infixLevel t.current ≤ level ∨ t.current.kind = .star ∧ startsOperand t.next = false

/-- A step reads nodes one after another. -/
def TakesAll (text : Bytes) (read : Tokens) (k : Nat) (p : Parser (List Node)) (s : ParserState) :
    Prop := Leads p s fun ns t => Row text read k s.prevEnd t.prevEnd ns

/-- A node that begins with a given token, which is the word of the operator that it is. -/
def OperatesFrom (word : Token) (n : Node) : Prop := n.first = word ∧ n.Operates

/-- A grammar whose goals grow nodes in order. An operand with its signs is no infix operator, and an
    expression of operators that bind tighter than a level is one of these or none, and goes on as
    long as it can. The operator after a pipe begins with its word. A query may be empty, and then it
    stands at the token before which it ends. -/
structure Grows (text : Bytes) (read : Tokens) (g : Grammar) : Prop where
  unary {k : Nat} {s : ParserState} (hs : s.Stands text read k) :
    Leads (g.reach .unary) s fun n t =>
      n.Lies text read k s.current.pos.offset t.prevEnd ∧ n.form.level? = none
  binary {k : Nat} {s : ParserState} (level : Nat) (hs : s.Stands text read k) :
    Leads (g.reach (.binary level)) s fun n t =>
      n.Lies text read k s.current.pos.offset t.prevEnd ∧ n.BindsTighter level ∧ Halts level t
  pipeOperator {k : Nat} {s : ParserState} (hs : s.Stands text read k) :
    Leads (g.reach .pipeOperator) s fun n t =>
      n.Lies text read k s.current.pos.offset t.prevEnd ∧ OperatesFrom s.current n
  sources {k : Nat} {s : ParserState} (hs : s.Stands text read k) :
    Takes text read (k + 1) (g.reach .sources) s
  query {k : Nat} {s : ParserState} (stop : TokenKind) (hs : s.Stands text read k) :
    Leads (g.reach (.query stop)) s fun n t =>
      Row text read k s.prevEnd t.current.pos.offset [n]

/-! ### Single nodes -/

/-- Whatever is built after its first token is consumed. -/
theorem lies_build (hs : s.Stands text read k') {first : Token} {form : Form} {children : List Node}
    (hfirst : first ∈ read.all) (hread : first.pos.offset < s.prevEnd)
    (hspelled : form.Spelled read children)
    (hroom : form.part = .operator → 0 < k)
    (hchildren : Slotted text read form k first.pos.offset s.prevEnd children) :
    Leads (build first form children) s fun n t => n.Lies text read k first.pos.offset t.prevEnd := by
  intro n t hrun
  cases hrun
  have hstop : max first.pos.offset s.prevEnd = s.prevEnd := Nat.max_eq_right (Nat.le_of_lt hread)
  refine ⟨.mk hfirst rfl (fun _ => ?_) ?_ ?_ hspelled hroom hchildren.below, Nat.le_refl _, ?_, ?_⟩
  · simpa only [ParserState.spanFrom, hstop] using hread
  · simpa only [ParserState.spanFrom, hstop] using hs.prevEnd_le
  · simpa only [ParserState.spanFrom, hstop] using hchildren.ordered
  · simpa only [Node.span, ParserState.spanFrom, hstop] using hread
  · simp only [Node.span, ParserState.spanFrom, hstop, Nat.le_refl]

/-- A node of one token. -/
theorem takes_leaf (hs : s.Stands text read k') (hkind : s.current.kind ≠ .endOfInput) {form : Form}
    (hspelled : form.Spelled read []) (hpart : form.part ≠ .operator) :
    Leads (advance >>= fun _ => build s.current form []) s fun n t =>
      n.Lies text read k s.current.pos.offset t.prevEnd := by
  refine .advance hs hkind fun h1 b1 lt => ?_
  exact lies_build h1 hs.current_mem lt hspelled (fun h => absurd h hpart) (.nil (Nat.le_of_lt lt))

/-! ### Lists of items -/

/-- Nodes found one after another from an offset on, latest first. -/
def Found (text : Bytes) (read : Tokens) (k lo : Nat) (found : List Node) (t : ParserState) : Prop :=
  Row text read k lo t.prevEnd found.reverse

/-- One more item, after which a comma decides whether there are others. -/
theorem found_item {lo : Nat} {item : Parser Node} {found : List Node} (hs : s.Stands text read k)
    (hitem : Takes text read k' item s) (hfound : Found text read k' lo found s) :
    Leads (do
        let node ← item
        if ← accept .comma then return .again (node :: found)
        return .done (node :: found).reverse) s
      (Leads.OfRound (Found text read k' lo) fun ns t => Row text read k' lo t.prevEnd ns) := by
  refine .bind hs hitem ?_
  intro node t ht _ hnode
  have hmore : Row text read k' lo t.prevEnd (node :: found).reverse :=
    hfound.found (hnode.row.widen hs.prevEnd (Nat.le_refl _))
  refine .after ht ?_
  intro comma u _ htu
  split
  · exact .pure (hmore.widen (Nat.le_refl _) htu.prevEnd)
  · exact .pure (hmore.widen (Nat.le_refl _) htu.prevEnd)

theorem takesAll_itemsUntil {bound : Nat} {close : TokenKind} {item : Parser Node}
    (hs : s.Stands text read k)
    (hitem : ∀ t, t.Stands text read k → Takes text read k' item t) :
    TakesAll text read k' (itemsUntil bound close item) s := by
  refine .loop hs (I := Found text read k' s.prevEnd) (.nil (Nat.le_refl _)) ?_
  intro found t ht _ hfound
  refine .look ?_
  split
  · exact .pure hfound
  · exact found_item ht (hitem t ht) hfound

theorem takesAll_itemsByComma {bound : Nat} {item : Parser Node} (hs : s.Stands text read k)
    (hitem : ∀ t, t.Stands text read k → Takes text read k' item t) :
    TakesAll text read k' (itemsByComma bound item) s := by
  refine .loop hs (I := Found text read k' s.prevEnd) (.nil (Nat.le_refl _)) ?_
  intro found t ht _ hfound
  exact found_item ht (hitem t ht) hfound

/-! ### Expressions -/

/-- What the rounds of reading infix operators have come to: an operator of theirs binds tighter than
    the level, and what goes on after it binds no tighter than it does. -/
structure Climbed (text : Bytes) (read : Tokens) (k level lo : Nat) (left : Node) (t : ParserState) :
    Prop where
  lies : left.Lies text read k lo t.prevEnd
  tighter : left.BindsTighter level
  halts : ∀ op, left.form = .binary op → Halts (operatorLevel op) t

section Expressions

variable (G : Grows text read g)
include G

theorem lies_betweenTail {first : Token} {left : Node} {op : Bytes} (hs : s.Stands text read k)
    (hfirst : first ∈ read.all) (hleft : left.Lies text read k first.pos.offset s.prevEnd)
    (hbinds : ∀ inner, left.form = .binary inner → operatorLevel op ≤ operatorLevel inner) :
    Leads (betweenTail g first left op) s fun n t =>
      n.Lies text read k first.pos.offset t.prevEnd ∧ n.form = .between op := by
  refine .after hs fun _ s1 h1 b1 => .after h1 fun _ s2 h2 b2 => ?_
  refine .bind h2 (G.binary 0 h2) fun low s3 h3 b3 ⟨hlow, _⟩ => .after h3 fun _ s4 h4 b4 => ?_
  refine .bind h4 (G.binary 0 h4) fun high s5 h5 b5 ⟨hhigh, _⟩ => .after h5 fun _ s6 h6 b6 => ?_
  have b16 := b1.trans (b2.trans (b3.trans (b4.trans (b5.trans b6))))
  refine .and (lies_build h6 hfirst (Nat.lt_of_lt_of_le hleft.lt b16.prevEnd) ?_ (by rintro ⟨⟩) ?_)
    (.build rfl)
  · simpa [Form.Spelled, Form.Binds] using hbinds
  · refine hleft.slotted .expression (Nat.le_refl _) (Nat.le_refl _) ?_
    refine hlow.slotted .low (Nat.le_refl _) ((b1.trans b2).le_offset h2) ?_
    exact hhigh.slotted .high (Nat.le_refl _) (b4.le_offset h4) (.nil b6.prevEnd)

omit G in
/-- An operator of two words binds as its first word does. -/
theorem leads_operatorText (op : Token) :
    Leads (operatorText op) s fun opText _ => operatorLevel opText = operatorLevel op.text := by
  unfold operatorText
  split
  next hmatches =>
    refine .anyhow fun regex _ => ?_
    split
    · exact .skip (.pure (by rw [hmatches]; rfl))
    · exact .refuse_bind
  next => exact .pure rfl

/-- A round that goes on has read an operator that binds tighter than the level, and no tighter than
    the operator read before it. -/
theorem climbed_binaryRound {level : Nat} {first : Token} {left : Node} (hs : s.Stands text read k)
    (hfirst : first ∈ read.all) (h : Climbed text read k level first.pos.offset left s) :
    Leads (binaryRound g level first left) s
      (Leads.OfRound (Climbed text read k level first.pos.offset) fun n t =>
        n.Lies text read k first.pos.offset t.prevEnd ∧ n.BindsTighter level ∧ Halts level t) := by
  obtain ⟨hleft, htighter, hhalts⟩ := h
  refine .look ?_
  split
  next hloose => exact .pure ⟨hleft, htighter, .inl hloose⟩
  refine .look ?_
  split
  next hstar =>
    simp only [Bool.and_eq_true, decide_eq_true_eq, Bool.not_eq_true'] at hstar
    exact .pure ⟨hleft, htighter, .inr hstar⟩
  next hlevel hstar =>
  have hop : operatorLevel s.current.text = infixLevel s.current :=
    hs.operatorLevel_current (by omega)
  have hbinds : ∀ inner, left.form = .binary inner →
      operatorLevel s.current.text ≤ operatorLevel inner := by
    intro inner hinner
    rcases hhalts inner hinner with hle | hstop
    · exact hop ▸ hle
    · exact absurd (by simp [hstop]) hstar
  split
  · refine .bind hs (lies_betweenTail G hs hfirst hleft hbinds) ?_
    rintro n t - - ⟨hn, hform⟩
    refine .pure ⟨hn, .of_level (congrArg Form.level? hform) (by omega), fun inner hinner => ?_⟩
    cases hform.symm.trans hinner
  refine .after hs fun _ s1 h1 b1 => ?_
  refine .bind h1 (leads_operatorText s.current) fun opText s2 h2 b2 htext => ?_
  refine .bind h2 (G.binary _ h2) fun right s3 h3 b3 ⟨hright, hrightTighter, hrightHalts⟩ => ?_
  rw [← hop, ← htext] at hrightTighter hrightHalts
  refine .bind h3 (.and (R := fun n t => n.Lies text read k first.pos.offset t.prevEnd)
    (lies_build h3 hfirst ?_ ?_ (by rintro ⟨⟩) ?_)
    (.build (Q := fun n t => n.form = .binary opText ∧ t = s3) ⟨rfl, rfl⟩)) ?_
  · exact Nat.lt_of_lt_of_le hleft.lt (b1.trans (b2.trans b3)).prevEnd
  · refine ⟨by simp, by simp, ?_, ?_⟩
    · simpa [htext] using hbinds
    · simpa [Node.BindsTighter] using hrightTighter
  · refine hleft.slotted .left (Nat.le_refl _) (Nat.le_refl _) ?_
    exact hright.slotted .right (Nat.le_refl _) ((b1.trans b2).le_offset h2) (.nil (Nat.le_refl _))
  · rintro n t - - ⟨hn, hform, rfl⟩
    refine .pure ⟨hn, .of_level (congrArg Form.level? hform) (by omega), fun inner hinner => ?_⟩
    cases hform.symm.trans hinner
    exact hrightHalts

theorem takes_binary (level : Nat) (hs : s.Stands text read k) :
    Leads (binary g level) s fun n t =>
      n.Lies text read k s.current.pos.offset t.prevEnd ∧ n.BindsTighter level ∧ Halts level t := by
  refine .look ?_
  refine .bind hs (G.unary hs) fun left t ht _ ⟨hleft, hnone⟩ => ?_
  refine .loop ht ⟨hleft, .of_none hnone, fun op hop => ?_⟩
    fun left u hu _ hclimbed => climbed_binaryRound G hu hs.current_mem hclimbed
  rw [hop] at hnone
  cases hnone

theorem takes_expression (hs : s.Stands text read k) : Takes text read k (expression g) s :=
  (takes_binary G 0 hs).mono fun _ _ h => h.1

theorem takesAll_assigned (hs : s.Stands text read k) : TakesAll text read k (assigned g) s := by
  refine .after hs fun given t ht b1 => ?_
  split
  · refine .bind ht (takes_expression G ht) fun value u hu b2 hvalue => .pure ?_
    have hrow : Row text read k s.prevEnd u.prevEnd [value] :=
      hvalue.row.widen (b1.le_offset ht) (Nat.le_refl _)
    refine ⟨List.forall_mem_singleton.2 (hvalue.grown.inSlot _), ?_⟩
    exact hrow.ordered.of_spans (by simp)
  · exact .pure (.nil b1.prevEnd)

end Expressions

/-! ### Names -/

/-- A reference as the name that it declares. -/
theorem Grown.asDeclaration {role role' : Role} {name name' : Bytes} {symbol : Symbol} {span : Span}
    {first : Token} {children : List Node}
    (h : (Node.mk role (.nameReference name symbol) span first children).Grown text read k) :
    (Node.mk role' (.nameDeclaration name') span first []).Grown text read k := by
  cases h with
  | mk token starts solid inside ordered spelled operator below =>
    have hlt : span.start < span.stop := solid (by rintro ⟨⟩)
    exact .leaf token starts (fun _ => hlt) inside ordered.le trivial (by rintro ⟨⟩)

theorem grown_asDeclaration? {n m : Node} (h : n.Grown text read k) (hm : asDeclaration? n = some m) :
    m.Grown text read k ∧ m.span = n.span := by
  unfold asDeclaration? at hm
  split at hm
  · cases hm
    exact ⟨Grown.asDeclaration h, rfl⟩
  · cases hm

/-- The items of a list as the names that they declare. -/
theorem row_mapM_asDeclaration? {lo hi : Nat} {items names : List Node}
    (h : Row text read k lo hi items) (hnames : items.mapM asDeclaration? = some names) :
    Row text read k lo hi names := by
  induction items generalizing lo names with
  | nil =>
    cases hnames
    exact h
  | cons item items ih =>
    simp only [List.mapM_cons, Option.bind_eq_bind, Option.bind_eq_some_iff, Option.pure_def,
      Option.some.injEq] at hnames
    obtain ⟨name, hname, rest, hrest, rfl⟩ := hnames
    obtain ⟨hitem, hitems⟩ := List.forall_mem_cons.1 h.grown
    obtain ⟨hstart, hspan, hordered⟩ := h.ordered
    obtain ⟨hgrown, hsame⟩ := grown_asDeclaration? hitem hname
    have hrow := ih ⟨hitems, hordered⟩ hrest
    refine ⟨List.forall_mem_cons.2 ⟨hgrown, hrow.grown⟩, ?_⟩
    exact ⟨hsame ▸ hstart, hsame ▸ hspan, hsame ▸ hrow.ordered⟩

theorem row_declaredNames? {n : Node} {names : List Node} (h : n.Grown text read k)
    (hn : declaredNames? n = some names) :
    Row text read k n.span.start n.span.stop names := by
  fun_induction declaredNames? n generalizing names with
  | case1 role name symbol span first children =>
    cases hn
    have hgrown : (Node.mk .none (.nameDeclaration name) span first []).Grown text read k :=
      Grown.asDeclaration h
    cases h with
    | mk token starts solid inside ordered spelled operator below =>
      exact ⟨List.forall_mem_singleton.2 hgrown, Nat.le_refl _, ordered.le, Nat.le_refl _⟩
  | case2 role span first inner ih =>
    cases h with
    | mk token starts solid inside ordered spelled operator below =>
      obtain ⟨hstart, -, hstop⟩ := ordered
      exact (ih (below inner List.mem_cons_self) hn).widen hstart hstop
  | case3 role span first items =>
    cases h with
    | mk token starts solid inside ordered spelled operator below =>
      exact row_mapM_asDeclaration? ⟨below, ordered⟩ hn
  | case4 n h1 h2 h3 => cases hn

section Arguments

variable (G : Grows text read g)
include G

theorem takes_namedOrExpression (hs : s.Stands text read k) :
    Takes text read k (namedOrExpression g) s := by
  refine .look ?_
  refine .bind hs (takes_expression G hs) fun left s1 h1 b1 hleft => .look ?_
  split
  · exact .pure hleft
  split
  · exact .refuse
  · rename_i names hnames
    refine .after h1 fun _ s2 h2 b2 => ?_
    refine .bind h2 (takes_expression G h2) fun value s3 h3 b3 hvalue => ?_
    refine lies_build h3 hs.current_mem ?_ trivial (by rintro ⟨⟩) ?_
    · exact Nat.lt_of_lt_of_le hleft.lt (b2.trans b3).prevEnd
    · have hrow := (row_declaredNames? hleft.grown hnames).widen hleft.after hleft.before
      refine (hrow.slotted .name (Nat.le_refl _)).append ?_
      exact hvalue.slotted .value (Nat.le_refl _) (b2.le_offset h2) (.nil (Nat.le_refl _))

theorem takes_operatorArgument (hs : s.Stands text read k) :
    Takes text read k (operatorArgument g) s := by
  refine .look ?_
  refine .bind hs (takes_namedOrExpression G hs) fun node s1 h1 b1 hnode => ?_
  refine .after h1 fun colon s2 h2 b2 => ?_
  split
  · refine .after h2 fun type s3 h3 b3 => ?_
    have hname : ((asDeclaration? node).getD node).Lies text read k s.current.pos.offset
        s1.prevEnd := by
      cases hdeclared : asDeclaration? node with
      | none => exact hnode
      | some m =>
        obtain ⟨hgrown, hspan⟩ := grown_asDeclaration? hnode.grown hdeclared
        exact ⟨hgrown, hspan ▸ hnode.after, hspan ▸ hnode.solid, hspan ▸ hnode.before⟩
    refine lies_build h3 hs.current_mem ?_ trivial (by rintro ⟨⟩) ?_
    · exact Nat.lt_of_lt_of_le hnode.lt (b2.trans b3).prevEnd
    · exact hname.slotted .name (Nat.le_refl _) (Nat.le_refl _) (.nil (b2.trans b3).prevEnd)
  · exact .pure { hnode with before := Nat.le_trans hnode.before b2.prevEnd }

end Arguments

end KustoFacts.Parser
