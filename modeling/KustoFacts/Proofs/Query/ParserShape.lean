import KustoFacts.Proofs.Query.Outline
import KustoFacts.Proofs.Query.Shape
import KustoFacts.Query.Parser.Grammar

/-!
    The parser builds well-formed trees with plain options only, whether it reports faults or not.
    There is one lemma for each production, given that the goals it asks for yield such nodes of
    their part. -/

namespace KustoFacts.Parser

open KustoFacts.Node (MadeAs IsSource IsElement slot)

/-- What a goal yields. -/
def Goal.part : Goal → Part
  | .query _ => .query
  | .pipeOperator => .operator
  | .unary | .binary _ | .sources => .expression

variable {text : Bytes} {g : Grammar}

/-- A grammar whose goals yield nodes of their part. -/
def Shapes (text : Bytes) (g : Grammar) : Prop :=
  ∀ goal, Yields text (g.reach goal) (MadeAs text (Goal.part goal))

/-! ### Lists of items -/

theorem yields_itemsUntil {bound : Nat} {close : TokenKind} {item : Parser Node} {Q : Node → Prop}
    (h : Yields text item Q) :
    Yields text (itemsUntil bound close item) fun ns => ∀ n ∈ ns, Q n := by
  refine .loop (I := fun ns => ∀ n ∈ ns, Q n) nofun fun found hfound => ?_
  refine .after ?_
  intro closed
  split
  · exact .ret fun n hn => hfound n (List.mem_reverse.1 hn)
  refine h.bind ?_
  intro node hnode
  have hmore : ∀ n ∈ node :: found, Q n := List.forall_mem_cons.2 ⟨hnode, hfound⟩
  refine .after ?_
  intro comma
  split
  · exact .ret hmore
  · exact .ret fun n hn => hmore n (List.mem_reverse.1 hn)

theorem yields_itemsByComma {bound : Nat} {item : Parser Node} {Q : Node → Prop}
    (h : Yields text item Q) :
    Yields text (itemsByComma bound item) fun ns => ∀ n ∈ ns, Q n := by
  refine .loop (I := fun ns => ∀ n ∈ ns, Q n) nofun fun found hfound => ?_
  refine h.bind ?_
  intro node hnode
  have hmore : ∀ n ∈ node :: found, Q n := List.forall_mem_cons.2 ⟨hnode, hfound⟩
  refine .after ?_
  intro comma
  split
  · exact .ret hmore
  · exact .ret fun n hn => hmore n (List.mem_reverse.1 hn)

/-- Nodes without children. -/
theorem yields_leaf {first : Token} {form : Form} (hf : first.Inside text)
    (admits : form.Admits []) : Yields text (build first form []) (MadeAs text form.part) :=
  .buildAny hf admits (List.forall_mem_nil _) fun _ => List.forall_mem_nil _

/-! ### Expressions -/

section Expressions

variable (G : Shapes text g)
include G

theorem yields_betweenTail {first : Token} {left : Node} {op : Bytes} (hf : first.Inside text)
    (hleft : left.MadeAs text .expression) :
    Yields text (betweenTail g first left op) (MadeAs text .expression) := by
  refine .after fun _ => .after fun _ => ?_
  refine (G (.binary 0)).bind fun low hlow => .after fun _ => ?_
  refine (G (.binary 0)).bind fun high hhigh => .after fun _ => ?_
  refine .build hf rfl ?_ ?_
  · simp [Form.Admits, hleft.2, hlow.2, hhigh.2, Goal.part]
  · simp [hleft.1.inSlot, hlow.1.inSlot, hhigh.1.inSlot]

theorem yields_binary (level : Nat) : Yields text (binary g level) (MadeAs text .expression) := by
  refine .bind .current ?_
  intro first hf
  refine (G .unary).bind ?_
  intro left hleft
  refine .loop (I := MadeAs text .expression) hleft ?_
  intro left hleft
  refine .after ?_
  intro op
  split
  · exact .ret hleft
  refine .after ?_
  intro next
  split
  · exact .ret hleft
  split
  · exact (yields_betweenTail G hf hleft).bind fun n hn => .ret hn
  refine .after fun _ => .after fun opText => ?_
  refine (G (.binary _)).bind ?_
  intro right hright
  refine .bind (.build hf rfl ?_ ?_) fun n hn => .ret hn
  · simp [Form.Admits, hleft.2, hright.2, Goal.part]
  · simp [hleft.1.inSlot, hright.1.inSlot]

theorem yields_expression : Yields text (expression g) (MadeAs text .expression) := yields_binary G 0

theorem yields_assigned : Yields text (assigned g) fun ns =>
    (∀ n ∈ ns, n.Made text) ∧ (ns.map slot = [] ∨ ns.map slot = [(.value, .expression)]) := by
  refine .after ?_
  intro given
  split
  · refine (yields_expression G).bind fun value hvalue => .ret ⟨?_, .inr ?_⟩
    · simp [hvalue.1.inSlot]
    · simp [hvalue.2]
  · exact .ret ⟨nofun, .inl rfl⟩

end Expressions

theorem is_of_asDeclaration? {n m : Node} (h : n.Made text) (hm : asDeclaration? n = some m) :
    m.MadeAs text .declaration := by
  unfold asDeclaration? at hm
  split at hm
  · cases hm
    exact h.asDeclaration _
  · cases hm

theorem exists_mem_of_mapM {α β : Type} {f : α → Option β} : ∀ {xs : List α} {ys : List β},
    xs.mapM f = some ys → ∀ y ∈ ys, ∃ x ∈ xs, f x = some y
  | [], _, h, y, hy => by cases h; cases hy
  | x :: xs, ys, h, y, hy => by
    simp only [List.mapM_cons, Option.bind_eq_bind, Option.bind_eq_some_iff, Option.pure_def,
      Option.some.injEq] at h
    obtain ⟨z, hz, zs, hzs, rfl⟩ := h
    rcases List.mem_cons.1 hy with rfl | hy
    · exact ⟨x, List.mem_cons_self, hz⟩
    · obtain ⟨x', hx', hy'⟩ := exists_mem_of_mapM hzs y hy
      exact ⟨x', List.mem_cons_of_mem _ hx', hy'⟩

theorem is_of_declaredNames? {n : Node} {names : List Node} (h : n.Made text)
    (hn : declaredNames? n = some names) : ∀ m ∈ names, m.MadeAs text .declaration := by
  fun_induction declaredNames? n generalizing names with
  | case1 role name symbol span first children =>
    cases hn
    intro m hm
    rw [List.mem_singleton.1 hm]
    exact h.asDeclaration _
  | case2 role span first inner ih => exact ih (h.children inner List.mem_cons_self) hn
  | case3 role span first items =>
    intro m hm
    obtain ⟨item, hitem, hdecl⟩ := exists_mem_of_mapM hn m hm
    exact is_of_asDeclaration? (h.children item hitem) hdecl
  | case4 n h1 h2 h3 => cases hn

section Arguments

variable (G : Shapes text g)
include G

theorem yields_namedOrExpression : Yields text (namedOrExpression g) (MadeAs text .expression) := by
  refine .bind .current ?_
  intro first hf
  refine (yields_expression G).bind fun left hleft => .after fun t => ?_
  split
  · exact .ret hleft
  split
  · exact .refuse
  · rename_i names hnames
    refine .after fun _ => (yields_expression G).bind fun value hvalue => ?_
    have hdecl := is_of_declaredNames? hleft.1 hnames
    refine .build hf rfl ⟨_, Node.slots_inSlot hdecl, ?_⟩ ?_
    · simp [hvalue.2]
    · intro c hc
      rcases List.mem_append.1 hc with hc | hc
      · exact Node.made_inSlot (fun n hn => (hdecl n hn).1) c hc
      · rw [List.mem_singleton.1 hc]; exact hvalue.1.inSlot _

theorem yields_operatorArgument : Yields text (operatorArgument g) (MadeAs text .expression) := by
  refine .bind .current ?_
  intro first hf
  refine (yields_namedOrExpression G).bind fun node hnode => .after fun colon => ?_
  split
  · refine .after ?_
    intro type
    rcases hd : asDeclaration? node with _ | m
    · refine .build hf rfl ⟨.expression, .inr rfl, ?_⟩ ?_
      · simp [hnode.2]
      · simp [hnode.1.inSlot]
    · have hm := is_of_asDeclaration? hnode.1 hd
      refine .build hf rfl ⟨.declaration, .inl rfl, ?_⟩ ?_
      · simp [hm.2]
      · simp [hm.1.inSlot]
  · exact .ret hnode

end Arguments

/-! ### Operators -/

theorem yields_paramValue : Yields text paramValue (MadeAs text .expression) := by
  refine .bind .current ?_
  intro first hf
  split
  · refine .after ?_
    intro _
    split
    · exact yields_leaf hf rfl
    · exact yields_leaf hf rfl
  · exact .after fun _ => yields_leaf hf rfl
  · exact .after fun _ => yields_leaf hf rfl
  · exact .after fun _ => yields_leaf hf rfl
  · refine .bind (.look fun s hs => hs.tokens _ s.next_mem) fun number hnumber => ?_
    split
    · refine .after fun _ => .after fun _ => ?_
      have leaf : Yields text (build number .literal []) (MadeAs text .expression) :=
        yields_leaf hnumber rfl
      refine leaf.bind fun literal hliteral => .build hf rfl ?_ ?_
      · simp [Form.Admits, hliteral.2]
      · simp [hliteral.1.inSlot]
    · exact .refuse
  · exact .refuse

/-- The value of an option is a word, a string or a number. -/
theorem tableless_paramValue : Yields text paramValue Node.Tableless := by
  have leaf (first : Token) {form : Form} (slots : ∀ r, form.expectsTable r = false) :
      Yields text (build first form []) Node.Tableless := .tableless slots nofun
  refine .after ?_
  intro first
  split
  · refine .after ?_
    intro _
    split
    · exact leaf first fun _ => rfl
    · exact leaf first fun _ => rfl
  · exact .after fun _ => leaf first fun _ => rfl
  · exact .after fun _ => leaf first fun _ => rfl
  · exact .after fun _ => leaf first fun _ => rfl
  · refine .after fun number => ?_
    split
    · refine .after fun _ => .after fun _ => ?_
      refine (leaf number fun _ => rfl).bind fun literal hliteral => ?_
      exact .tableless (fun _ => rfl) (List.forall_mem_singleton.2 (hliteral.inSlot _))
    · exact .refuse
  · exact .refuse

theorem yields_params (op : Bytes) :
    Yields text (params g op) fun ns => ∀ n ∈ ns, n.MadeAs text .setting := by
  refine .loop (I := fun ns => ∀ n ∈ ns, n.MadeAs text .setting) nofun fun found hfound => ?_
  refine .after ?_
  intro starts
  split
  · refine .bind (Q := MadeAs text .setting) ?_
      fun n hn => .ret (List.forall_mem_cons.2 ⟨hn, hfound⟩)
    refine .bind .current fun first hf => .after fun _ => .after fun name => .after fun _ => ?_
    refine (yields_paramValue.and tableless_paramValue).bind ?_
    rintro value ⟨hvalue, hplain⟩
    refine .buildAny hf ?_ ?_ ?_
    · simp [Form.Admits, hvalue.2]
    · simp [hvalue.1.inSlot]
    · simp [hplain.inSlot]
  · exact .ret fun n hn => hfound n (List.mem_reverse.1 hn)

section Operators

variable (G : Shapes text g)
include G

theorem yields_expressions : Yields text (itemsByComma g.bound (expression g))
    fun ns => ∀ n ∈ ns, n.MadeAs text .expression :=
  yields_itemsByComma (yields_expression G)

theorem yields_conditions :
    Yields text (conditions g) fun ns => ∀ n ∈ ns, n.MadeAs text .expression := by
  refine .after ?_
  intro on
  split
  · exact .after fun _ => yields_expressions G
  · exact .ret nofun

/-- A join or a lookup, whichever form is given. -/
theorem yields_joinLike {form : Option Bytes → Form} (hpart : ∀ kind, (form kind).part = .operator)
    (hadmits : ∀ kind, (form kind).Admits = (Form.join none).Admits) :
    Yields text (joinLike g form) (MadeAs text .operator) := by
  refine .bind .current fun first hf => .after fun _ => ?_
  refine (yields_params _).bind ?_
  intro params hparams
  refine (yields_expression G).bind ?_
  intro right hright
  refine (yields_conditions G).bind fun conditions hconditions => .after fun s => ?_
  rw [← hpart (kindText? s.source params)]
  refine .build hf ?_ ?_ ?_
  · rw [hpart]
    rfl
  · rw [hadmits]
    exact ⟨_, _, Node.slots_inSlot hparams, Node.slots_inSlot hconditions, by simp [hright.2]⟩
  · intro c hc
    rcases List.mem_append.1 hc with hc | hc
    · exact Node.made_inSlot (fun n hn => (hparams n hn).1) c hc
    rcases List.mem_cons.1 hc with rfl | hc
    · exact hright.1.inSlot _
    · exact Node.made_inSlot (fun n hn => (hconditions n hn).1) c hc

theorem yields_union : Yields text (Parser.union g) (MadeAs text .operator) := by
  refine .bind .current fun first hf => .after fun _ => ?_
  refine (yields_params _).bind ?_
  intro params hparams
  refine (yields_expressions G).bind ?_
  intro operands hoperands
  refine .build hf rfl ⟨_, _, Node.slots_inSlot hparams, Node.slots_inSlot hoperands, by simp⟩ ?_
  intro c hc
  rcases List.mem_append.1 hc with hc | hc
  · exact Node.made_inSlot (fun n hn => (hparams n hn).1) c hc
  · exact Node.made_inSlot (fun n hn => (hoperands n hn).1) c hc

theorem yields_pipes {first : Token} {source : Node} (hf : first.Inside text)
    (hsource : source.IsSource text) : Yields text (pipes g first source) (IsSource text) := by
  refine .loop (I := IsSource text) hsource fun source hsource => .after fun pipe => ?_
  split
  · refine (G .pipeOperator).bind ?_
    intro op hop
    refine .bind (.build hf rfl (.inr ⟨_, hsource.2, ?_⟩) ?_) fun n hn => .ret hn.source
    · simp [hop.2, Goal.part]
    · simp [hsource.1.inSlot, hop.1.inSlot]
  · exact .ret hsource

theorem yields_subquery : Yields text (subquery g) (MadeAs text .expression) := by
  refine .bind .current fun first hf => .after fun _ => ?_
  refine .bind .current ?_
  intro opFirst hopFirst
  refine (G .pipeOperator).bind ?_
  intro op hop
  refine .bind (.build hopFirst rfl (.inl ?_) ?_) fun head hhead => ?_
  · simp [hop.2, Goal.part]
  · simp [hop.1.inSlot]
  refine (yields_pipes G hopFirst (Node.MadeAs.source hhead)).bind fun inner hinner => ?_
  refine .after fun _ => .build hf rfl ⟨_, hinner.2, ?_⟩ ?_
  · simp
  · simp [hinner.1.inSlot]

theorem yields_braced : Yields text (braced g) (MadeAs text .query) :=
  (G (.query .rightBrace)).bind fun _ hquery => .after fun _ => .ret hquery

theorem yields_schemaAndRows :
    Yields text (schemaAndRows g) fun ns => ∀ n ∈ ns, n.MadeAs text .expression := by
  refine .bind .current fun schemaFirst hschema => .after fun _ => ?_
  refine (yields_itemsUntil (yields_operatorArgument G)).bind ?_
  intro columns hcolumns
  refine .after fun _ => .bind (.build hschema rfl
    (Node.slots_inSlot fun n hn => (hcolumns n hn).source)
    (Node.made_inSlot fun n hn => (hcolumns n hn).1)) fun schema hs => ?_
  refine .bind .current fun rowsFirst hrows => .after fun _ => ?_
  refine (yields_itemsUntil (yields_expression G)).bind ?_
  intro values hvalues
  refine .after fun _ => .bind (.build hrows rfl
    (Node.slots_inSlot fun n hn => (hvalues n hn).source)
    (Node.made_inSlot fun n hn => (hvalues n hn).1)) fun rows hr => ?_
  exact .ret (List.forall_mem_cons.2 ⟨hs, List.forall_mem_cons.2 ⟨hr, nofun⟩⟩)

theorem yields_given (keyword : Bytes) :
    Yields text (given g keyword) fun ns => ∀ n ∈ ns, n.MadeAs text .expression := by
  unfold given
  split
  · exact yields_schemaAndRows G
  · exact .ret nofun

omit G in
theorem isSource_of_sourceList {n : Node} (h : n.MadeAs text .expression) :
    ∀ m ∈ sourceList n, m.IsSource text := by
  intro m hm
  unfold sourceList at hm
  split at hm
  · rename_i role span first items
    have admits := h.1.wellFormed.admits (m.slot) (List.mem_map_of_mem hm)
    exact ⟨h.1.children m hm, admits.2⟩
  · rename_i role span first inner
    obtain ⟨p, hp, hslots⟩ := h.1.wellFormed.admits
    have hslot : slot m ∈ [(Role.expression, p)] := hslots ▸ List.mem_map_of_mem hm
    have hpart : m.form.part = p := congrArg Prod.snd (List.mem_singleton.1 hslot)
    exact ⟨h.1.children m hm, hpart ▸ hp⟩
  · rw [List.mem_singleton.1 hm]; exact h.source

theorem yields_searched (keyword : Bytes) :
    Yields text (searched g keyword) fun ns => ∀ n ∈ ns, n.IsSource text := by
  unfold searched
  split
  · refine .after fun word => .after fun next => ?_
    split
    · exact .after fun _ => (G .sources).bind fun n hn => .ret (isSource_of_sourceList hn)
    · exact .ret nofun
  · exact .ret nofun

theorem yields_body {found : List Node} (hfound : ∀ n ∈ found, IsElement text n) :
    Yields text (body g found) fun ns => ∀ n ∈ ns, IsElement text n := by
  refine .loop (I := fun ns => ∀ n ∈ ns, IsElement text n) hfound fun found hfound => ?_
  refine .after ?_
  intro t
  split
  · exact .ret fun n hn => hfound n (List.mem_reverse.1 hn)
  refine .after ?_
  intro next
  split
  · exact .after fun _ => .ret hfound
  split
  · refine .bind (.after fun _ => yields_braced G) fun n hn => .ret ?_
    exact List.forall_mem_cons.2 ⟨⟨hn.1, .inr hn.2⟩, hfound⟩
  refine .after ?_
  intro subquery
  split
  · refine (yields_subquery G).bind fun n hn => .ret ?_
    exact List.forall_mem_cons.2 ⟨⟨hn.1, .inl hn.2⟩, hfound⟩
  · refine (yields_operatorArgument G).bind fun n hn => .ret ?_
    exact List.forall_mem_cons.2 ⟨⟨hn.1, .inl hn.2⟩, hfound⟩

theorem yields_operator : Yields text (operator g) (MadeAs text .operator) := by
  refine .bind .current fun first hf => .after fun _ => ?_
  refine (yields_params _).bind ?_
  intro params hparams
  refine (yields_given G _).bind ?_
  intro given hgiven
  refine (yields_searched G _).bind ?_
  intro sources hsources
  have hfound : ∀ n ∈ given.reverse, IsElement text n := fun n hn =>
    have hn := hgiven n (List.mem_reverse.1 hn)
    ⟨hn.1, .inl hn.2⟩
  refine (yields_body G hfound).bind ?_
  intro arguments harguments
  split
  · exact .bind (Q := fun _ => False) .refuse fun _ h => h.elim
  dsimp only
  refine .build hf rfl ⟨_, _, _, Node.slots_inSlot hparams, Node.slots_inSlot hsources,
    Node.slots_inSlot harguments, by rw [List.map_append, List.map_append]⟩ ?_
  intro c hc
  rcases List.mem_append.1 hc with hc | hc
  · rcases List.mem_append.1 hc with hc | hc
    · exact Node.made_inSlot (fun n hn => (hparams n hn).1) c hc
    · exact Node.made_inSlot (fun n hn => (hsources n hn).1) c hc
  · exact Node.made_inSlot (fun n hn => (harguments n hn).1) c hc

theorem yields_leading : Yields text (leading g) (MadeAs text .operator) := by
  refine .after ?_
  intro union
  split
  · exact yields_union G
  · exact yields_operator G

theorem yields_pipeOperator : Yields text (pipeOperator g) (MadeAs text .operator) := by
  refine .after ?_
  intro t
  split
  · exact .refuse
  split
  · exact yields_joinLike G (fun _ => rfl) fun _ => rfl
  split
  · exact yields_joinLike G (fun _ => rfl) fun _ => rfl
  split
  · exact yields_union G
  split
  · exact yields_operator G
  · exact .refuse

end Operators

/-! ### Operands -/

section Operands

variable (G : Shapes text g)
include G

theorem yields_parenItem : Yields text (parenItem g) (IsSource text) := by
  refine .after ?_
  intro starts
  split
  · exact (yields_subquery G).mono fun n hn => hn.source
  refine .bind .current fun first hf => .after fun next => ?_
  split
  · exact (yields_leading G).bind fun head hhead => yields_pipes G hf hhead.operatorSource
  · exact (yields_namedOrExpression G).bind fun head hhead => yields_pipes G hf hhead.source

theorem yields_call : Yields text (call g) (MadeAs text .expression) := by
  refine .bind .current fun first hf => .after fun _ => .after fun _ => ?_
  refine (yields_itemsUntil (yields_parenItem G)).bind fun arguments harguments => .after fun _ => ?_
  exact .build hf rfl (Node.slots_inSlot harguments)
    (Node.made_inSlot fun n hn => (harguments n hn).1)

omit G in
theorem yields_bracketName : Yields text bracketName (MadeAs text .expression) := by
  refine .bind .current fun first hf => .after fun _ => .after fun quoted => ?_
  exact .after fun _ => .after fun _ => yields_leaf hf rfl

theorem yields_bracketList : Yields text (bracketList g) (MadeAs text .expression) := by
  refine .bind .current fun first hf => .after fun _ => ?_
  refine (yields_itemsUntil (yields_expression G)).bind fun items hitems => .after fun _ => ?_
  exact .build hf rfl (Node.slots_inSlot fun n hn => (hitems n hn).source)
    (Node.made_inSlot fun n hn => (hitems n hn).1)

theorem yields_parenthesized : Yields text (parenthesized g) (MadeAs text .expression) := by
  refine .bind .current fun first hf => .after fun _ => ?_
  refine (yields_itemsUntil (yields_parenItem G)).bind fun items hitems => .after fun _ => ?_
  split
  · rename_i item
    have hitem := hitems item List.mem_cons_self
    refine .build hf rfl ⟨_, hitem.2, ?_⟩ ?_
    · simp
    · simp [hitem.1.inSlot]
  · exact .build hf rfl (Node.slots_inSlot hitems)
      (Node.made_inSlot fun n hn => (hitems n hn).1)

theorem yields_primary : Yields text (primary g) (MadeAs text .expression) := by
  refine .bind .current ?_
  intro first hf
  split
  · exact .after fun _ => yields_leaf hf rfl
  · exact .after fun _ => yields_leaf hf rfl
  · exact .after fun _ => .after fun _ => yields_leaf hf rfl
  · refine .after fun next => .after fun third => ?_
    split
    · exact .after fun _ => yields_leaf hf rfl
    split
    · exact yields_call G
    split
    · refine .bind .current fun first hf => .after fun _ => .after fun pattern => ?_
      exact yields_leaf hf rfl
    · exact .after fun _ => yields_leaf hf rfl
  · refine .after fun next => .after fun third => ?_
    split
    · exact yields_bracketName
    · exact yields_bracketList G
  · exact yields_parenthesized G
  · exact .after fun _ => yields_leaf hf rfl
  · exact .refuse

theorem yields_selector : Yields text (selector g) (MadeAs text .expression) := by
  refine .bind .current ?_
  intro first hf
  split
  · exact yields_bracketName
  refine .after ?_
  intro next
  split
  · exact yields_call G
  · exact .after fun _ => yields_leaf hf rfl

theorem yields_selected : Yields text (selected g) (MadeAs text .expression) := by
  refine .bind .current fun first hf => (yields_primary G).bind fun node hnode => ?_
  refine .loop (I := MadeAs text .expression) hnode ?_
  intro node hnode
  refine .after fun t => .after fun next => ?_
  split
  · refine .after fun _ => (yields_selector G).bind fun member hmember => ?_
    refine .bind (.build hf rfl ?_ ?_) fun n hn => .ret hn
    · simp [Form.Admits, hnode.2, hmember.2]
    · simp [hnode.1.inSlot, hmember.1.inSlot]
  refine .after ?_
  intro s
  split
  · refine .after fun _ => (yields_expression G).bind fun index hindex => .after fun _ => ?_
    refine .bind (.build hf rfl ?_ ?_) fun n hn => .ret hn
    · simp [Form.Admits, hnode.2, hindex.2]
    · simp [hnode.1.inSlot, hindex.1.inSlot]
  · exact .ret hnode

theorem yields_signed : Yields text (signed g) (MadeAs text .expression) := by
  refine .bind .current ?_
  intro first hf
  split
  · refine .after fun _ => (G .unary).bind fun operand hoperand => .build hf rfl ?_ ?_
    · simp [Form.Admits, hoperand.2, Goal.part]
    · simp [hoperand.1.inSlot]
  · exact yields_selected G

end Operands

/-! ### Statements -/

section Statements

theorem yields_nameDeclaration :
    Yields text nameDeclaration fun named => named.2.MadeAs text .declaration := by
  refine .bind .current ?_
  intro first hf
  split
  · exact .after fun _ => .bind (yields_leaf hf rfl) fun n hn => .ret hn
  refine .after fun next => .after fun third => ?_
  split
  · refine .after fun _ => .after fun quoted => .after fun _ => .after fun _ => ?_
    exact .bind (yields_leaf hf rfl) fun n hn => .ret hn
  · exact .refuse

variable (G : Shapes text g)
include G

theorem yields_pipeExpression : Yields text (pipeExpression g) (IsSource text) := by
  refine .bind .current fun first hf => .after fun next => ?_
  split
  · exact (yields_leading G).bind fun head hhead => yields_pipes G hf hhead.operatorSource
  · exact (yields_expression G).bind fun head hhead => yields_pipes G hf hhead.source

theorem yields_parameterList : Yields text (parameterList g) fun ns =>
    (∀ n ∈ ns, n.Made text) ∧ Form.Slots .parameter (· = .parameter) (ns.map slot) := by
  have parameters : Yields text (parameter g) (MadeAs text .parameter) := by
    refine .bind .current fun first hf => .after fun _ => .after fun _ => .after fun type => ?_
    exact (yields_assigned G).bind fun given hgiven => .build hf rfl hgiven.2 hgiven.1
  refine .after fun _ => (yields_itemsUntil parameters).bind fun params hparams => .after fun _ => ?_
  exact .ret ⟨Node.made_inSlot fun n hn => (hparams n hn).1, Node.slots_inSlot hparams⟩

theorem yields_functionDeclaration :
    Yields text (functionDeclaration g) (MadeAs text .function) := by
  refine .bind .current fun first hf => .after fun view => ?_
  refine (yields_parameterList G).bind fun params hparams => .after fun _ => ?_
  refine (yields_braced G).bind fun body hbody => .build hf rfl ⟨_, hparams.2, ?_⟩ ?_
  · simp [hbody.2]
  · intro c hc
    rcases List.mem_append.1 hc with hc | hc
    · exact hparams.1 c hc
    · rw [List.mem_singleton.1 hc]; exact hbody.1.inSlot _

theorem yields_letStatement : Yields text (letStatement g) (MadeAs text .statement) := by
  refine .bind .current fun first hf => .after fun _ => ?_
  refine yields_nameDeclaration.bind fun ⟨name, declared⟩ hdeclared => .after fun _ => ?_
  have finish (value : Node) (hvalue : value.Made text)
      (hpart : value.form.part.IsSource ∨ value.form.part = .function) :
      Yields text (build first (.letStatement name) [declared.inSlot .name, value.inSlot .value])
        (MadeAs text .statement) := by
    refine .build hf rfl ⟨_, hpart, ?_⟩ ?_
    · simp [show declared.form.part = .declaration from hdeclared.2]
    · simp [show declared.Made text from hdeclared.1, Node.Made.inSlot, hvalue]
  refine .after ?_
  intro starts
  split
  · exact (yields_functionDeclaration G).bind fun value hvalue =>
      finish value hvalue.1 (.inr hvalue.2)
  · exact (yields_pipeExpression G).bind fun value hvalue => finish value hvalue.1 (.inl hvalue.2)

theorem yields_statement : Yields text (statement g) (MadeAs text .statement) := by
  refine .bind .current fun first hf => .after fun next => ?_
  split
  · exact yields_letStatement G
  split
  · refine .bind .current fun first hf => .after fun _ => .after fun option => ?_
    refine .after fun _ => .after fun name => ?_
    exact (yields_assigned G).bind fun given hgiven => .build hf rfl hgiven.2 hgiven.1
  split
  · refine .bind .current fun first hf => .after fun _ => .after fun _ => ?_
    exact (yields_parameterList G).bind fun params hparams => .build hf rfl hparams.2 hparams.1
  split
  · refine .bind .current fun first hf => .after fun _ => .after fun _ => ?_
    refine yields_nameDeclaration.bind fun ⟨name, declared⟩ _ => .after fun _ => ?_
    refine (yields_expression G).bind fun value hvalue => .build hf rfl (.inr ?_) ?_
    · simp [hvalue.2]
    · simp [hvalue.1.inSlot]
  · refine (yields_pipeExpression G).bind fun node hnode => .build hf rfl ⟨_, hnode.2, ?_⟩ ?_
    · simp
    · simp [hnode.1.inSlot]

theorem yields_statementRound {stop : TokenKind} {found : List Node}
    (hfound : ∀ n ∈ found, n.MadeAs text .statement) :
    Yields text (statementRound g stop found)
      (Yields.OfRound (fun ns => ∀ n ∈ ns, n.MadeAs text .statement)
        fun ns => ∀ n ∈ ns, n.MadeAs text .statement) := by
  refine .after ?_
  intro t
  split
  · exact .ret fun n hn => hfound n (List.mem_reverse.1 hn)
  refine .after ?_
  intro semicolon
  split
  · exact .ret hfound
  refine .after fun s => (yields_statement G).attempt.bind fun read hread => ?_
  have hmore : ∀ n ∈ read.toList ++ found, n.MadeAs text .statement := by
    intro n hn
    rcases List.mem_append.1 hn with hn | hn
    · exact hread n (Option.mem_toList.1 hn)
    · exact hfound n hn
  refine .after ?_
  intro s
  split
  · exact .after fun _ => .ret hmore
  split
  · exact .after fun _ => .after fun _ => .ret hmore
  · exact .ret hmore

theorem yields_query (stop : TokenKind) : Yields text (query g stop) (MadeAs text .query) := by
  refine .bind .current ?_
  intro first hf
  refine .bind (Q := fun ns => ∀ n ∈ ns, n.MadeAs text .statement) (.nested ?_ ?_)
    fun statements hstatements => ?_
  · exact .loop nofun fun found hfound => yields_statementRound G hfound
  · exact .after fun _ => .ret nofun
  · have slots : Form.Slots .statement (· = .statement)
        ((statements.map (·.inSlot .statement)).map slot) := Node.slots_inSlot hstatements
    exact .build hf rfl slots (Node.made_inSlot fun n hn => (hstatements n hn).1)

end Statements

/-! ### All goals -/

theorem shapes_produce (G : Shapes text g) (goal : Goal) :
    Yields text (g.produce goal) (MadeAs text (Goal.part goal)) := by
  cases goal with
  | query stop => exact yields_query G stop
  | unary => exact .nested (yields_signed G) .fail
  | binary level => exact yields_binary G level
  | pipeOperator => exact .nested (yields_pipeOperator G) .fail
  | sources => exact yields_primary G

theorem shapes_reachIn (text : Bytes) : ∀ steps, Shapes text ⟨steps, Grammar.reachIn steps⟩
  | 0, _ => .fail
  | steps + 1, goal => shapes_produce (shapes_reachIn text steps) goal

end KustoFacts.Parser
