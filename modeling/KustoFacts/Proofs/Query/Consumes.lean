import KustoFacts.Proofs.Query.Grown.Operator

/-!
    What is read is consumed. A production that returns something has consumed a token, and a round
    of a loop that goes on has consumed one too, however many faults were reported before. Two kinds
    of productions are not of this sort: a query may be empty, as are the parameters and conditions
    that may be left out, and some productions begin with whatever token stands there, because they
    are called only when a token has been seen. -/

namespace KustoFacts.Parser

variable {α β γ : Type} {text : Bytes} {read : Tokens} {g : Grammar} {s t : ParserState}

/-! ### Fewer tokens -/

/-- A token that is not the end can be consumed. -/
theorem lt_advance (h : s.Along text read) (hs : s.current.kind ≠ .endOfInput) :
    s.advance.tokens.length < s.tokens.length := by
  rw [h.tokens_eq hs]
  exact Nat.lt_succ_self _

/-- A step that has consumed a token when it returns. -/
def Consumes (p : Parser α) (s : ParserState) : Prop :=
  Leads p s fun _ t => t.tokens.length < s.tokens.length

/-- A round that has consumed a token when it goes on. -/
def Advances (step : Parser (Round α β)) (s : ParserState) : Prop :=
  Leads step s (Leads.OfRound (fun _ t => t.tokens.length < s.tokens.length) fun _ _ => True)

/-- After a step no more tokens are left than before, on the way through the same text. -/
theorem Leads.fewer {p : Parser α} {f : α → Parser β} {Q : β → ParserState → Prop}
    (hs : s.Along text read)
    (next : ∀ a t, p.run s = (some a, t) → t.Along text read →
      t.tokens.length ≤ s.tokens.length → Leads (f a) t Q) : Leads (p >>= f) s Q := by
  intro b u hrun
  have forward := p.forward s
  rw [run_bind] at hrun
  rcases hp : p.run s with ⟨_ | a, t⟩ <;> rw [hp] at hrun forward
  · cases hrun
  · exact next a t hp (hs.moves forward.moves).1 forward.tokens.length_le b u hrun

namespace Consumes

variable {p : Parser α} {f : α → Parser β}

theorem look {h : ParserState → α} (next : Consumes (f (h s)) s) :
    Consumes (Parser.look h >>= f) s := next

/-- What comes after a step that consumes does not give anything back. -/
theorem first (hs : s.Along text read) (h : Consumes p s) : Consumes (p >>= f) s := by
  refine .fewer hs fun a t hrun _ _ b u hrun' => ?_
  have hfew := ((f a).forward t).tokens.length_le
  rw [hrun'] at hfew
  exact Nat.lt_of_le_of_lt hfew (h a t hrun)

/-- What comes before a step that consumes does not give anything back. -/
theorem rest (hs : s.Along text read) (next : ∀ a t, t.Along text read → Consumes (f a) t) :
    Consumes (p >>= f) s :=
  .fewer hs fun a t _ ht hfew b u hrun => Nat.lt_of_lt_of_le (next a t ht b u hrun) hfew

theorem advance (hs : s.Along text read) (hkind : s.current.kind ≠ .endOfInput) :
    Consumes Parser.advance s := by
  intro _ _ hrun
  cases hrun
  exact lt_advance hs hkind

theorem expect {kind : TokenKind} (hs : s.Along text read)
    (hkind : (kind == .endOfInput) = false) : Consumes (Parser.expect kind) s := by
  intro _ t hrun
  simp only [Parser.expect] at hrun
  split at hrun
  next hcurrent =>
    cases hrun
    exact lt_advance hs (hcurrent ▸ ne_of_beq_false hkind)
  next => cases hrun

theorem refuse {fault : Fault} : Consumes (Parser.refuse fault : Parser α) s := nofun

theorem fail : Consumes (Parser.fail : Parser α) s := nofun

/-- A round that always consumes advances. -/
theorem advances {step : Parser (Round α β)} (h : Consumes step s) : Advances step s := by
  intro round t hrun
  cases round with
  | again a => exact h _ t hrun
  | done b => trivial

theorem nested {beyond : Parser α} (hinside : Consumes p { s with depth := s.depth + 1 })
    (hbeyond : ∀ t, Consumes beyond t) : Consumes (Parser.nested p beyond) s := by
  intro a t hrun
  simp only [Parser.nested] at hrun
  split at hrun
  · obtain ⟨ha, rfl⟩ := Prod.mk.inj hrun
    exact hinside a (p.run { s with depth := s.depth + 1 }).2 (Prod.ext ha rfl)
  · obtain ⟨ha, rfl⟩ := Prod.mk.inj hrun
    let deep := { s with depth := s.depth + 1 }
    have hfew := deep.forward_reportNesting.tokens.length_le
    have hlt := hbeyond deep.reportNesting a (beyond.run deep.reportNesting).2 (Prod.ext ha rfl)
    exact Nat.lt_of_lt_of_le hlt hfew

end Consumes

/-- A loop whose rounds consume however they end. -/
theorem Consumes.loop {step : α → Parser (Round α β)} {bound : Nat} {a : α}
    (hs : s.Along text read) (h : ∀ a t, t.Along text read → Consumes (step a) t) :
    Consumes (Parser.loop step bound a) s := by
  cases bound with
  | zero => exact .fail
  | succ bound =>
    intro b u hrun
    have hstep := h a s hs
    simp only [Parser.loop, rounds_succ] at hrun
    rcases hr : (step a).run s with ⟨_ | a' | b', t⟩ <;> rw [hr] at hrun
    · cases hrun
    · have hfew := (forward_rounds step bound a' t).tokens.length_le
      rw [show rounds step bound a' t = (some b, u) from hrun] at hfew
      exact Nat.lt_of_le_of_lt hfew (hstep _ t hr)
    · cases hrun
      exact hstep _ _ hr

namespace Advances

variable {p : Parser α} {f : α → Parser (Round β γ)}

theorem done {b : γ} : Advances (pure (.done b) : Parser (Round β γ)) s := by
  intro _ _ hrun
  cases hrun
  trivial

theorem refuse {fault : Fault} : Advances (Parser.refuse fault : Parser (Round β γ)) s := nofun

theorem look {h : ParserState → α} (next : Advances (f (h s)) s) :
    Advances (Parser.look h >>= f) s := next

theorem rest (hs : s.Along text read) (next : ∀ a t, t.Along text read → Advances (f a) t) :
    Advances (p >>= f) s := by
  refine .fewer hs fun a t _ ht hfew round u hrun => ?_
  have hnext := next a t ht round u hrun
  cases round with
  | again b => exact Nat.lt_of_lt_of_le hnext hfew
  | done c => trivial

theorem first (hs : s.Along text read) (h : Consumes p s) : Advances (p >>= f) s :=
  (Consumes.first hs h).advances

/-- A token that is not the end is consumed if it has a kind. -/
theorem accept {kind : TokenKind} {f : Bool → Parser (Round β γ)} (hs : s.Along text read)
    (hkind : (kind == .endOfInput) = false) (no : Advances (f false) s) :
    Advances (Parser.accept kind >>= f) s := by
  intro round u hrun
  rw [run_accept_bind] at hrun
  split at hrun
  next hcurrent =>
    have hfirst : Consumes (Parser.advance >>= fun _ => f true) s :=
      .first hs (.advance hs (hcurrent ▸ ne_of_beq_false hkind))
    exact hfirst.advances round u hrun
  next => exact no round u hrun

end Advances

/-! ### Productions -/

/-- A grammar whose goals consume, other than queries. -/
structure Consuming (text : Bytes) (read : Tokens) (g : Grammar) : Prop where
  unary {s : ParserState} (hs : s.Along text read) : Consumes (g.reach .unary) s
  binary {s : ParserState} (level : Nat) (hs : s.Along text read) :
    Consumes (g.reach (.binary level)) s
  pipeOperator {s : ParserState} (hs : s.Along text read) : Consumes (g.reach .pipeOperator) s
  sources {s : ParserState} (hs : s.Along text read) : Consumes (g.reach .sources) s

section Productions

variable (G : Consuming text read g) (hs : s.Along text read)

section Expressions

include hs

theorem consumes_betweenTail {first : Token} {left : Node} {op : Bytes} :
    Consumes (betweenTail g first left op) s :=
  .rest hs fun _ _ h1 => .first h1 (.expect h1 rfl)

theorem consumes_typeName : Consumes typeName s := by
  refine .look ?_
  split
  next hword => exact .first hs (.advance hs (by simp [hword]))
  next => exact .refuse

theorem consumes_commaRound {item : Parser Node} {found : List Node} (h : Consumes item s) :
    Consumes (commaRound item found) s := .first hs h

theorem consumes_itemsByComma {bound : Nat} {item : Parser Node}
    (h : ∀ t, t.Along text read → Consumes item t) : Consumes (itemsByComma bound item) s :=
  .loop hs fun _ t ht => consumes_commaRound ht (h t ht)

include G

theorem consumes_binary (level : Nat) : Consumes (binary g level) s :=
  .look (.first hs (G.unary hs))

theorem consumes_expression : Consumes (expression g) s := consumes_binary G hs 0

theorem consumes_namedOrExpression : Consumes (namedOrExpression g) s :=
  .look (.first hs (consumes_expression G hs))

theorem consumes_operatorArgument : Consumes (operatorArgument g) s :=
  .look (.first hs (consumes_namedOrExpression G hs))

end Expressions

section Operators

include hs

theorem consumes_paramValue : Consumes paramValue s := by
  refine .look ?_
  split
  next hkind => exact .first hs (.advance hs (by simp [hkind]))
  next hkind => exact .first hs (.advance hs (by simp [hkind]))
  next hkind => exact .first hs (.advance hs (by simp [hkind]))
  next hkind => exact .first hs (.advance hs (by simp [hkind]))
  next hkind =>
    refine .look ?_
    split
    · exact .first hs (.advance hs (by simp [hkind]))
    · exact .refuse
  next => exact .refuse

theorem consumes_namedParameter {bound : Nat} : Consumes (namedParameter bound) s :=
  .look (.rest hs fun _ _ h1 => .rest h1 fun _ _ h2 => .first h2 (.expect h2 rfl))

theorem consumes_braced : Consumes (braced g) s :=
  .rest hs fun _ _ h1 => .first h1 (.expect h1 rfl)

theorem consumes_block : Consumes (block g) s := .rest hs fun _ _ h1 => consumes_braced h1

theorem consumes_schemaAndRows : Consumes (schemaAndRows g) s := .look (.first hs (.expect hs rfl))

/-- An operator begins with its word, whatever that is. -/
theorem consumes_operator (hkind : s.current.kind ≠ .endOfInput) : Consumes (operator g) s :=
  .look (.first hs (.advance hs hkind))

include G

theorem consumes_expressions : Consumes (itemsByComma g.bound (expression g)) s :=
  consumes_itemsByComma hs fun _ ht => consumes_expression G ht

theorem consumes_joinLike {form : Option Bytes → Form} : Consumes (joinLike g form) s :=
  .look (.rest hs fun _ _ h1 => .rest h1 fun _ _ h2 => .first h2 (consumes_expression G h2))

theorem consumes_union : Consumes (Parser.union g) s :=
  .look (.rest hs fun _ _ h1 => .rest h1 fun _ _ h2 => .first h2 (consumes_expressions G h2))

theorem consumes_subquery : Consumes (subquery g) s :=
  .look (.rest hs fun _ _ h1 => .look (.first h1 (G.pipeOperator h1)))

theorem consumes_leading (hkind : s.current.kind ≠ .endOfInput) : Consumes (leading g) s := by
  refine .look ?_
  split
  · exact consumes_union G hs
  · exact consumes_operator hs hkind

theorem consumes_pipeOperator : Consumes (pipeOperator g) s := by
  refine .look ?_
  split
  · exact .refuse
  next hword =>
    split
    · exact consumes_joinLike G hs
    split
    · exact consumes_joinLike G hs
    split
    · exact consumes_union G hs
    split
    · exact consumes_operator hs (by simp [not_not.1 hword])
    · exact .refuse

end Operators

section Operands

include hs

theorem consumes_bracketName : Consumes bracketName s :=
  .look (.rest hs fun _ _ h1 => .look (.rest h1 fun _ _ h2 => .first h2 (.expect h2 rfl)))

theorem consumes_call : Consumes (call g) s :=
  .look (.rest hs fun _ _ h1 => .rest h1 fun _ _ h2 => .rest h2 fun _ _ h3 =>
    .first h3 (.expect h3 rfl))

theorem consumes_bracketList : Consumes (bracketList g) s :=
  .look (.rest hs fun _ _ h1 => .rest h1 fun _ _ h2 => .first h2 (.expect h2 rfl))

theorem consumes_parenthesized : Consumes (parenthesized g) s :=
  .look (.rest hs fun _ _ h1 => .rest h1 fun _ _ h2 => .first h2 (.expect h2 rfl))

/-- A pattern begins with its first token, whatever that is. -/
theorem consumes_wildcard (hkind : s.current.kind ≠ .endOfInput) : Consumes (wildcard g) s :=
  .look (.first hs (.advance hs hkind))

theorem consumes_primary : Consumes (primary g) s := by
  refine .look ?_
  split
  next hkind => exact .first hs (.advance hs (by simp [hkind]))
  next hkind => exact .first hs (.advance hs (by simp [hkind]))
  next hkind => exact .first hs (.advance hs (by simp [hkind]))
  next hkind =>
    have hword : s.current.kind ≠ .endOfInput := by simp [hkind]
    refine .look (.look ?_)
    split
    · exact .first hs (.advance hs hword)
    split
    · exact consumes_call hs
    split
    · exact consumes_wildcard hs hword
    · exact .first hs (.advance hs hword)
  next =>
    refine .look (.look ?_)
    split
    · exact consumes_bracketName hs
    · exact consumes_bracketList hs
  next => exact consumes_parenthesized hs
  next hkind => exact .first hs (.advance hs (by simp [hkind]))
  next => exact .refuse

/-- A name after a dot is taken whatever it is. -/
theorem consumes_selector (hkind : s.current.kind ≠ .endOfInput) : Consumes (selector g) s := by
  refine .look ?_
  split
  · exact consumes_bracketName hs
  refine .look ?_
  split
  · exact consumes_call hs
  · exact .first hs (.advance hs hkind)

theorem consumes_selected : Consumes (selected g) s := .look (.first hs (consumes_primary hs))

include G

theorem consumes_signed : Consumes (signed g) s := by
  refine .look ?_
  split
  · exact .rest hs fun _ _ h1 => .first h1 (G.unary h1)
  · exact consumes_selected hs

theorem consumes_parenItem : Consumes (parenItem g) s := by
  refine .rest hs fun subquery t ht => ?_
  split
  · exact consumes_subquery G ht
  refine .look (.look ?_)
  split
  next hleading => exact .first ht (consumes_leading G ht (kind_of_startsLeading hleading))
  next => exact .first ht (consumes_namedOrExpression G ht)

end Operands

section Statements

include hs

theorem consumes_nameDeclaration : Consumes nameDeclaration s := by
  refine .look ?_
  split
  next hword => exact .first hs (.advance hs (by simp [hword]))
  refine .look (.look ?_)
  split
  next hquoted =>
    simp only [Bool.and_eq_true, decide_eq_true_eq] at hquoted
    exact .first hs (.advance hs (by simp [hquoted.1.1]))
  · exact .refuse

theorem consumes_parameter : Consumes (parameter g) s := .look (.first hs (.expect hs rfl))

theorem consumes_parameterList : Consumes (parameterList g) s := .first hs (.expect hs rfl)

theorem consumes_functionDeclaration : Consumes (functionDeclaration g) s :=
  .look (.rest hs fun _ _ h1 => .first h1 (consumes_parameterList h1))

theorem consumes_letStatement : Consumes (letStatement g) s :=
  .look (.rest hs fun _ _ h1 => .first h1 (consumes_nameDeclaration h1))

/-- An option is set from the word `set` on, whatever comes after it. -/
theorem consumes_setStatement (hkind : s.current.kind ≠ .endOfInput) :
    Consumes (setStatement g) s := .look (.first hs (.advance hs hkind))

theorem consumes_declareStatement : Consumes (declareStatement g) s :=
  .look (.rest hs fun _ _ h1 => .rest h1 fun _ _ h2 => .first h2 (consumes_parameterList h2))

theorem consumes_aliasStatement : Consumes (aliasStatement g) s :=
  .look (.rest hs fun _ _ h1 => .rest h1 fun _ _ h2 => .first h2 (consumes_nameDeclaration h2))

include G

theorem consumes_pipeExpression : Consumes (pipeExpression g) s := by
  refine .look (.look ?_)
  split
  next hleading => exact .first hs (consumes_leading G hs (kind_of_startsLeading hleading))
  next => exact .first hs (consumes_expression G hs)

theorem consumes_expressionStatement {first : Token} : Consumes (expressionStatement g first) s :=
  .first hs (consumes_pipeExpression G hs)

theorem consumes_statement : Consumes (statement g) s := by
  refine .look (.look ?_)
  split
  · exact consumes_letStatement hs
  split
  next hset =>
    simp only [Token.isWord, Bool.and_eq_true, decide_eq_true_eq] at hset
    exact consumes_setStatement hs (by simp [hset.1.1])
  split
  · exact consumes_declareStatement hs
  split
  · exact consumes_aliasStatement hs
  · exact consumes_expressionStatement G hs

end Statements

end Productions

/-! ### All goals -/

theorem consuming_produce {bound : Nat} (G : Consuming text read g) :
    Consuming text read ⟨bound, g.produce⟩ where
  unary hs := .nested (consumes_signed G { hs with }) fun _ => .fail
  binary level hs := consumes_binary G hs level
  pipeOperator hs := .nested (consumes_pipeOperator G { hs with }) fun _ => .fail
  sources hs := consumes_primary hs

/-- Whatever number of steps a goal is given. -/
theorem consuming_reachIn (text : Bytes) (read : Tokens) :
    ∀ bound steps, Consuming text read ⟨bound, Grammar.reachIn steps⟩
  | _, 0 => ⟨fun _ => .fail, fun _ _ => .fail, fun _ => .fail, fun _ => .fail⟩
  | _, steps + 1 => consuming_produce (consuming_reachIn text read steps steps)

/-! ### Rounds -/

section Rounds

variable (hs : s.Along text read)
include hs

theorem advances_untilRound {close : TokenKind} {item : Parser Node} {found : List Node}
    (h : Consumes item s) : Advances (untilRound close item found) s := by
  refine .look ?_
  split
  · exact .done
  · exact .first hs h

theorem advances_dottedRound {name : Bytes} : Advances (dottedRound name) s := by
  refine .look (.look ?_)
  split
  next hdot =>
    simp only [Bool.and_eq_true, decide_eq_true_eq] at hdot
    exact .first hs (.advance hs (by simp [hdot.1]))
  next => exact .done

theorem advances_closeRound {depth : Nat} : Advances (closeRound depth) s := by
  refine .look ?_
  split
  next => exact .refuse
  next hkind => exact .first hs (.advance hs (by simp [hkind]))
  next hkind => exact .first hs (.advance hs (by simp [hkind]))
  next hkind _ _ => exact .first hs (.advance hs hkind)

theorem advances_skipRound {stop : TokenKind} {depth : Int} : Advances (skipRound stop depth) s := by
  refine .look ?_
  split
  next => exact .done
  next hkind =>
    split
    · exact .done
    · exact .first hs (.advance hs (by simp [hkind]))
  next hkind => exact .first hs (.advance hs (by simp [hkind]))
  next hkind =>
    split
    · exact .done
    · exact .first hs (.advance hs (by simp [hkind]))
  next hkind _ _ _ => exact .first hs (.advance hs hkind)

theorem advances_paramRound {op : Bytes} {found : List Node} :
    Advances (paramRound g op found) s := by
  refine .rest hs fun more t ht => ?_
  split
  · exact .first ht (consumes_namedParameter ht)
  · exact .done

theorem advances_wildcardRound {pattern : Bytes} : Advances (wildcardRound pattern) s := by
  refine .look (.look ?_)
  split
  next htouches =>
    simp only [Bool.and_eq_true, Bool.or_eq_true, decide_eq_true_eq] at htouches
    exact .first hs (.advance hs (by rcases htouches.1 with hk | hk <;> simp [hk]))
  next => exact .done

theorem advances_stringRound {u : Unit} : Advances (stringRound u) s := .accept hs rfl .done

theorem advances_pipeRound {first : Token} {source : Node} :
    Advances (pipeRound g first source) s := .accept hs rfl .done

theorem advances_bodyRound (G : Consuming text read g) {found : List Node} : Advances (bodyRound g found) s := by
  refine .look ?_
  split
  · exact .done
  next hends =>
    have hend : s.current.kind ≠ .endOfInput := fun hkind => hends (by simp [endsBody, hkind])
    refine .look ?_
    split
    · exact .first hs (.advance hs hend)
    split
    · exact .first hs (consumes_block hs)
    refine .rest hs fun subquery t ht => ?_
    split
    · exact .first ht (consumes_subquery G ht)
    · exact .first ht (consumes_operatorArgument G ht)

theorem advances_binaryRound {level : Nat} {first : Token} {left : Node} :
    Advances (binaryRound g level first left) s := by
  refine .look ?_
  split
  · exact .done
  next hlevel =>
    have hend : s.current.kind ≠ .endOfInput := by
      intro hkind
      simp [infixLevel, hkind] at hlevel
    refine .look ?_
    split
    · exact .done
    split
    · exact .first hs (consumes_betweenTail hs)
    · exact .first hs (.advance hs hend)

theorem advances_postfixRound {first : Token} {node : Node} :
    Advances (postfixRound g first node) s := by
  refine .look (.look ?_)
  split
  next hdot =>
    simp only [Bool.and_eq_true, decide_eq_true_eq] at hdot
    exact .first hs (.advance hs (by simp [hdot.1]))
  refine .look ?_
  split
  next htouches =>
    simp only [Bool.and_eq_true, decide_eq_true_eq] at htouches
    exact .first hs (.advance hs (by simp [htouches.1]))
  next => exact .done

end Rounds

end KustoFacts.Parser
