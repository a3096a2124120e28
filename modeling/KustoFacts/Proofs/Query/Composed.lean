import KustoFacts.Query.Parser.Grammar

/-!
    What productions are made of. A production is put together from a few elementary steps
    (`Parser.Composed`), so that whatever single moves keep is kept by every production
    (`Composed.keeps`). Nesting is reported by reading too deep and by nothing else; all other faults
    are reported by steps that name them. -/

namespace KustoFacts.Parser

/-- A step that is composed of elementary ones, which report nothing about nesting by themselves. -/
inductive Composed : {α : Type} → Parser α → Prop where
  | look {α : Type} (f : ParserState → α) : Composed (Parser.look f)
  | bind {α β : Type} {p : Parser α} {f : α → Parser β} (hp : Composed p)
      (hf : ∀ a, Composed (f a)) : Composed (p >>= f)
  | fail {α : Type} : Composed (Parser.fail : Parser α)
  | advance : Composed Parser.advance
  | report {fault : Fault} (h : fault ≠ .nestingTooDeep) : Composed (Parser.report fault)
  | refuse {α : Type} {fault : Fault} (h : fault ≠ .nestingTooDeep) :
      Composed (Parser.refuse fault : Parser α)
  | accept (kind : TokenKind) : Composed (Parser.accept kind)
  | acceptWord (word : Bytes) : Composed (Parser.acceptWord word)
  | expect (kind : TokenKind) : Composed (Parser.expect kind)
  | attempt {α : Type} {p : Parser α} (hp : Composed p) : Composed (Parser.attempt p)
  | nested {α : Type} {inside beyond : Parser α} (hinside : Composed inside)
      (hbeyond : Composed beyond) : Composed (Parser.nested inside beyond)
  | loop {α β : Type} {step : α → Parser (Round α β)} (hstep : ∀ a, Composed (step a))
      (bound : Nat) (a : α) : Composed (Parser.loop step bound a)

/-- What single moves keep, save reports about nesting that reading too deep did not give. -/
structure Invariant (I : ParserState → Prop) : Prop where
  advance {s : ParserState} (h : I s) : I s.advance
  report {s : ParserState} {fault : Fault} (hfault : fault ≠ .nestingTooDeep) (h : I s) :
    I (s.report fault)
  reportNesting {s : ParserState} (h : I s) : I s.reportNesting
  level {s : ParserState} (depth : Nat) (h : I s) : I { s with depth := depth }

namespace Composed

variable {α β : Type} {p q : Parser α} {I : ParserState → Prop}

/-- Rounds keep what a step keeps. -/
theorem keeps_rounds (hI : Invariant I) {step : α → Parser (Round α β)}
    (hstep : ∀ a s, I s → I ((step a).run s).2) (bound : Nat) (a : α) (s : ParserState)
    (hs : I s) : I (rounds step bound a s).2 := by
  induction bound generalizing a s with
  | zero => exact hI.reportNesting hs
  | succ bound ih =>
    have ht := hstep a s hs
    rw [rounds_succ]
    rcases hrun : (step a).run s with ⟨_ | a' | b, t⟩ <;> rw [hrun] at ht
    · exact ht
    · exact ih a' t ht
    · exact ht

/-- A step that is composed of elementary ones keeps what single moves keep. -/
theorem keeps (hI : Invariant I) (hp : Composed p) (s : ParserState) (hs : I s) :
    I (p.run s).2 := by
  induction hp generalizing s with
  | look f => exact hs
  | @bind _ _ p f _ _ ihp ihf =>
    have ht := ihp s hs
    rw [run_bind]
    rcases hrun : p.run s with ⟨_ | a, t⟩ <;> rw [hrun] at ht
    · exact ht
    · exact ihf a t ht
  | fail => exact hI.reportNesting hs
  | advance => exact hI.advance hs
  | report h => exact hI.report h hs
  | refuse h => exact hI.report h hs
  | accept kind =>
    simp only [Parser.accept]
    split
    · exact hI.advance hs
    · exact hs
  | acceptWord word =>
    simp only [Parser.acceptWord]
    split
    · exact hI.advance hs
    · exact hs
  | expect kind =>
    simp only [Parser.expect]
    split
    · exact hI.advance hs
    · exact hI.report (by simp) hs
  | attempt _ ih => exact ih s hs
  | nested _ _ ihinside ihbeyond =>
    simp only [Parser.nested]
    refine hI.level _ ?_
    split
    · exact ihinside _ (hI.level _ hs)
    · exact ihbeyond _ (hI.reportNesting (hI.level _ hs))
  | loop _ bound a ih => exact keeps_rounds hI ih bound a s hs

/-! ### Single steps -/

theorem pure (a : α) : Composed (Pure.pure a : Parser α) := .look _

theorem build (first : Token) (form : Form) (children : List Node) :
    Composed (Parser.build first form children) := .look _

theorem ite {c : Prop} [Decidable c] (hp : Composed p) (hq : Composed q) :
    Composed (if c then p else q) := by
  split
  · exact hp
  · exact hq

/-- A look at the state before another step. -/
theorem seen {f : ParserState → α} {k : α → Parser β} (h : ∀ a, Composed (k a)) :
    Composed (Parser.look f >>= k) := .bind (.look f) h

/-- A token that is consumed before another step. -/
theorem past {k : Unit → Parser β} (h : Composed (k ())) : Composed (Parser.advance >>= k) :=
  .bind .advance fun _ => h

/-- A kind of token that is consumed before another step. -/
theorem expected {kind : TokenKind} {k : Unit → Parser β} (h : Composed (k ())) :
    Composed (Parser.expect kind >>= k) := .bind (.expect kind) fun _ => h

/-- What may be consumed before another step. -/
theorem accepted {kind : TokenKind} {k : Bool → Parser β} (h : ∀ b, Composed (k b)) :
    Composed (Parser.accept kind >>= k) := .bind (.accept kind) h

end Composed

/-! ### Items and names -/

variable {g : Grammar}

theorem composed_commaRound {item : Parser Node} (h : Composed item) (found : List Node) :
    Composed (commaRound item found) :=
  .bind h fun _ => .accepted fun _ => .ite (.pure _) (.pure _)

theorem composed_itemsByComma {item : Parser Node} (h : Composed item) (bound : Nat) :
    Composed (itemsByComma bound item) := .loop (composed_commaRound h) bound []

theorem composed_itemsUntil {item : Parser Node} (h : Composed item) (bound : Nat)
    (close : TokenKind) : Composed (itemsUntil bound close item) :=
  .loop (fun found => .seen fun _ => .ite (.pure _) (composed_commaRound h found)) bound []

theorem composed_dottedName (bound : Nat) (name : Bytes) : Composed (dottedName bound name) := by
  refine .loop (fun _ => .seen fun _ => .seen fun _ => .ite (.past ?_) (.pure _)) bound name
  exact .seen fun _ => .past (.pure _)

theorem composed_typeName : Composed typeName :=
  .seen fun _ => .ite (.past (.pure _)) (.refuse nofun)

theorem composed_operatorText (op : Token) : Composed (operatorText op) :=
  .ite (.seen fun _ => .ite (.past (.pure _)) (.bind (.refuse nofun) fun _ => .pure _)) (.pure _)

theorem composed_bracketName : Composed bracketName :=
  .seen fun _ => .past (.seen fun _ => .past (.expected (.build _ _ _)))

theorem composed_nameDeclaration : Composed nameDeclaration := by
  refine .seen fun first => .ite (.past (.bind (.build _ _ _) fun _ => .pure _)) ?_
  refine .seen fun _ => .seen fun _ => .ite ?_ (.refuse nofun)
  exact .past (.seen fun _ => .past (.past (.bind (.build _ _ _) fun _ => .pure _)))

/-! ### What starts -/

theorem composed_startsParam (op : Bytes) : Composed (startsParam op) :=
  .seen fun _ => .seen fun _ => .ite (.pure _) (.ite (.pure _) (.ite (.pure _) (.pure _)))

theorem composed_startsSubquery : Composed startsSubquery := by
  refine .seen fun _ => .seen fun _ => .seen fun _ => .ite (.pure _) ?_
  split
  all_goals exact .pure _

theorem composed_startsFunction : Composed startsFunction :=
  .seen fun _ => .seen fun _ => .seen fun _ => .ite (.pure _) (.ite (.pure _) (.pure _))

/-! ### Productions -/

section Productions

variable (G : ∀ goal, Composed (g.reach goal))
include G

theorem composed_betweenTail (first : Token) (left : Node) (op : Bytes) :
    Composed (betweenTail g first left op) :=
  .past (.expected (.bind (G _) fun _ => .expected (.bind (G _) fun _ => .expected (.build _ _ _))))

theorem composed_binaryRound (level : Nat) (first : Token) (left : Node) :
    Composed (binaryRound g level first left) := by
  refine .seen fun op => .ite (.pure _) (.seen fun _ => .ite (.pure _) (.ite ?_ (.past ?_)))
  · exact .bind (composed_betweenTail G first left op.text) fun _ => .pure _
  · exact .bind (composed_operatorText op) fun _ => .bind (G _) fun _ =>
      .bind (.build _ _ _) fun _ => .pure _

theorem composed_binary (level : Nat) : Composed (binary g level) :=
  .seen fun first => .bind (G _) fun left => .loop (composed_binaryRound G level first) g.bound left

theorem composed_expression : Composed (expression g) := composed_binary G 0

theorem composed_namedOrExpression : Composed (namedOrExpression g) := by
  refine .seen fun first => .bind (composed_expression G) fun left => .seen fun t => ?_
  refine .ite (.pure _) ?_
  split
  · exact .refuse nofun
  · exact .past (.bind (composed_expression G) fun _ => .build _ _ _)

theorem composed_assigned : Composed (assigned g) :=
  .accepted fun _ => .ite (.bind (composed_expression G) fun _ => .pure _) (.pure _)

theorem composed_operatorArgument : Composed (operatorArgument g) :=
  .seen fun _ => .bind (composed_namedOrExpression G) fun _ => .accepted fun _ =>
    .ite (.bind composed_typeName fun _ => .build _ _ _) (.pure _)

/-! #### Operators -/

omit G in
theorem composed_paramValue : Composed paramValue := by
  refine .seen fun first => ?_
  split
  · exact .past (.ite (.build _ _ _) (.build _ _ _))
  · exact .past (.build _ _ _)
  · exact .past (.build _ _ _)
  · exact .past (.build _ _ _)
  · refine .seen fun number => .ite ?_ (.refuse nofun)
    exact .past (.past (.bind (.build _ _ _) fun _ => .build _ _ _))
  · exact .refuse nofun

omit G in
theorem composed_params (op : Bytes) : Composed (params g op) := by
  have parameter : Composed (namedParameter g.bound) :=
    .seen fun _ => .past (.bind (composed_dottedName _ _) fun _ =>
      .expected (.bind composed_paramValue fun _ => .build _ _ _))
  exact .loop (fun _ => .bind (composed_startsParam op) fun _ =>
    .ite (.bind parameter fun _ => .pure _) (.pure _)) g.bound []

theorem composed_expressions : Composed (itemsByComma g.bound (expression g)) :=
  composed_itemsByComma (composed_expression G) g.bound

theorem composed_conditions : Composed (conditions g) :=
  .seen fun _ => .ite (.past (composed_expressions G)) (.pure _)

theorem composed_joinLike (form : Option Bytes → Form) : Composed (joinLike g form) :=
  .seen fun _ => .past (.bind (composed_params _) fun _ => .bind (composed_expression G) fun _ =>
    .bind (composed_conditions G) fun _ => .seen fun _ => .build _ _ _)

theorem composed_union : Composed (Parser.union g) :=
  .seen fun _ => .past (.bind (composed_params _) fun _ => .bind (composed_expressions G) fun _ =>
    .build _ _ _)

theorem composed_pipes (first : Token) (source : Node) : Composed (pipes g first source) :=
  .loop (fun _ => .accepted fun _ => .ite
    (.bind (G _) fun _ => .bind (.build _ _ _) fun _ => .pure _) (.pure _)) g.bound source

theorem composed_subquery : Composed (subquery g) :=
  .seen fun _ => .past (.seen fun _ => .bind (G _) fun _ => .bind (.build _ _ _) fun _ =>
    .bind (composed_pipes G _ _) fun _ => .expected (.build _ _ _))

theorem composed_braced : Composed (braced g) := .bind (G _) fun _ => .expected (.pure _)

theorem composed_given (keyword : Bytes) : Composed (given g keyword) := by
  refine .ite ?_ (.pure _)
  refine .seen fun _ => .expected (.bind ?_ fun _ => .expected (.bind (.build _ _ _) fun _ => ?_))
  · exact composed_itemsUntil (composed_operatorArgument G) _ _
  refine .seen fun _ => .expected (.bind ?_ fun _ => .expected (.bind (.build _ _ _) fun _ => .pure _))
  exact composed_itemsUntil (composed_expression G) _ _

theorem composed_searched (keyword : Bytes) : Composed (searched g keyword) :=
  .ite (.seen fun _ => .seen fun _ => .ite (.past (.bind (G _) fun _ => .pure _)) (.pure _)) (.pure _)

theorem composed_bodyRound (found : List Node) : Composed (bodyRound g found) := by
  refine .seen fun t => .ite (.pure _) (.seen fun _ => .ite (.past (.pure _)) (.ite ?_ ?_))
  · exact .bind (.past (composed_braced G)) fun _ => .pure _
  · exact .bind composed_startsSubquery fun _ =>
      .ite (.bind (composed_subquery G) fun _ => .pure _)
        (.bind (composed_operatorArgument G) fun _ => .pure _)

theorem composed_operator : Composed (operator g) := by
  refine .seen fun _ => .past (.bind (composed_params _) fun _ => .bind (composed_given G _) fun _ =>
    .bind (composed_searched G _) fun _ => .bind (.loop (composed_bodyRound G) _ _) fun _ => ?_)
  exact .ite (.bind (.refuse nofun) fun _ => .build _ _ _) (.build _ _ _)

theorem composed_leading : Composed (leading g) :=
  .seen fun _ => .ite (composed_union G) (composed_operator G)

theorem composed_pipeOperator : Composed (pipeOperator g) :=
  .seen fun _ => .ite (.refuse nofun) (.ite (composed_joinLike G _) (.ite (composed_joinLike G _)
    (.ite (composed_union G) (.ite (composed_operator G) (.refuse nofun)))))

/-! #### Operands -/

theorem composed_parenItem : Composed (parenItem g) :=
  .bind composed_startsSubquery fun _ => .ite (composed_subquery G) (.seen fun _ => .seen fun _ =>
    .ite (.bind (composed_leading G) fun _ => composed_pipes G _ _)
      (.bind (composed_namedOrExpression G) fun _ => composed_pipes G _ _))

theorem composed_call : Composed (call g) :=
  .seen fun _ => .past (.past (.bind (composed_itemsUntil (composed_parenItem G) _ _) fun _ =>
    .expected (.build _ _ _)))

theorem composed_bracketList : Composed (bracketList g) :=
  .seen fun _ => .past (.bind (composed_itemsUntil (composed_expression G) _ _) fun _ =>
    .expected (.build _ _ _))

theorem composed_parenthesized : Composed (parenthesized g) := by
  refine .seen fun _ => .past (.bind (composed_itemsUntil (composed_parenItem G) _ _) fun _ =>
    .expected ?_)
  split
  all_goals exact .build _ _ _

omit G in
theorem composed_wildcard : Composed (wildcard g) := by
  refine .seen fun _ => .past (.bind (.loop (fun _ => ?_) _ _) fun _ => .build _ _ _)
  exact .seen fun _ => .seen fun _ => .ite (.past (.pure _)) (.pure _)

omit G in
theorem composed_adjacentStrings : Composed (adjacentStrings g) :=
  .loop (fun _ => .accepted fun _ => .ite (.pure _) (.pure _)) _ _

theorem composed_primary : Composed (primary g) := by
  refine .seen fun first => ?_
  split
  · exact .past (.build _ _ _)
  · exact .past (.build _ _ _)
  · exact .past (.bind composed_adjacentStrings fun _ => .build _ _ _)
  · exact .seen fun _ => .seen fun _ => .ite (.past (.build _ _ _)) (.ite (composed_call G)
      (.ite composed_wildcard (.past (.build _ _ _))))
  · exact .seen fun _ => .seen fun _ => .ite composed_bracketName (composed_bracketList G)
  · exact composed_parenthesized G
  · exact .past (.build _ _ _)
  · exact .refuse nofun

theorem composed_selector : Composed (selector g) :=
  .seen fun _ => .ite composed_bracketName (.seen fun _ =>
    .ite (composed_call G) (.past (.build _ _ _)))

theorem composed_postfixRound (first : Token) (node : Node) :
    Composed (postfixRound g first node) := by
  refine .seen fun _ => .seen fun _ => .ite (.past ?_) (.seen fun _ => .ite (.past ?_) (.pure _))
  · exact .bind (composed_selector G) fun _ => .bind (.build _ _ _) fun _ => .pure _
  · exact .bind (composed_expression G) fun _ => .expected (.bind (.build _ _ _) fun _ => .pure _)

theorem composed_signed : Composed (signed g) := by
  refine .seen fun first => .ite (.past (.bind (G _) fun _ => .build _ _ _)) ?_
  exact .seen fun _ => .bind (composed_primary G) fun _ =>
    .loop (composed_postfixRound G _) _ _

/-! #### Statements -/

theorem composed_pipeExpression : Composed (pipeExpression g) :=
  .seen fun _ => .seen fun _ => .ite (.bind (composed_leading G) fun _ => composed_pipes G _ _)
    (.bind (composed_expression G) fun _ => composed_pipes G _ _)

omit G in
theorem composed_parameterType : Composed (parameterType g) := by
  have closes : Composed (closeParens g) := by
    refine .loop (fun depth => .seen fun t => ?_) _ _
    split
    · exact .refuse nofun
    · exact .past (.pure _)
    · exact .past (.ite (.pure _) (.pure _))
    · exact .past (.pure _)
  exact .seen fun _ => .ite (.past (.bind closes fun _ => .seen fun _ => .pure _))
    (.bind composed_typeName fun _ => .pure _)

theorem composed_parameterList : Composed (parameterList g) := by
  have parameter : Composed (parameter g) :=
    .seen fun _ => .expected (.expected (.bind composed_parameterType fun _ =>
      .bind (composed_assigned G) fun _ => .build _ _ _))
  exact .expected (.bind (composed_itemsUntil parameter _ _) fun _ => .expected (.pure _))

theorem composed_functionDeclaration : Composed (functionDeclaration g) :=
  .seen fun _ => .bind (.acceptWord _) fun _ => .bind (composed_parameterList G) fun _ =>
    .expected (.bind (composed_braced G) fun _ => .build _ _ _)

theorem composed_letStatement : Composed (letStatement g) :=
  .seen fun _ => .past (.bind composed_nameDeclaration fun _ => .expected
    (.bind composed_startsFunction fun _ => .ite
      (.bind (composed_functionDeclaration G) fun _ => .build _ _ _)
      (.bind (composed_pipeExpression G) fun _ => .build _ _ _)))

theorem composed_setStatement : Composed (setStatement g) :=
  .seen fun _ => .past (.seen fun _ => .past (.bind (composed_dottedName _ _) fun _ =>
    .bind (composed_assigned G) fun _ => .build _ _ _))

theorem composed_declareStatement : Composed (declareStatement g) :=
  .seen fun _ => .past (.past (.bind (composed_parameterList G) fun _ => .build _ _ _))

theorem composed_aliasStatement : Composed (aliasStatement g) :=
  .seen fun _ => .past (.past (.bind composed_nameDeclaration fun _ => .expected
    (.bind (composed_expression G) fun _ => .build _ _ _)))

theorem composed_statement : Composed (statement g) :=
  .seen fun _ => .seen fun _ => .ite (composed_letStatement G) (.ite (composed_setStatement G)
    (.ite (composed_declareStatement G) (.ite (composed_aliasStatement G)
      (.bind (composed_pipeExpression G) fun _ => .build _ _ _))))

/-! #### Queries -/

omit G in
theorem composed_skipStatement (stop : TokenKind) : Composed (skipStatement g stop) := by
  refine .loop (fun depth => .seen fun t => ?_) _ _
  split
  · exact .pure _
  · exact .ite (.pure _) (.past (.pure _))
  · exact .past (.pure _)
  · exact .ite (.pure _) (.past (.pure _))
  · exact .past (.pure _)

theorem composed_statementRound (stop : TokenKind) (found : List Node) :
    Composed (statementRound g stop found) := by
  refine .seen fun _ => .ite (.pure _) (.accepted fun _ => .ite (.pure _) (.seen fun _ => ?_))
  refine .bind (.attempt (composed_statement G)) fun _ => .seen fun _ => .ite ?_ (.ite ?_ (.pure _))
  · exact .bind (composed_skipStatement stop) fun _ => .pure _
  · exact .bind (.report nofun) fun _ => .bind (composed_skipStatement stop) fun _ => .pure _

theorem composed_query (stop : TokenKind) : Composed (query g stop) := by
  refine .seen fun _ => .bind (.nested ?_ ?_) fun _ => .build _ _ _
  · exact .loop (composed_statementRound G stop) _ _
  · exact .bind (composed_skipStatement stop) fun _ => .pure _

end Productions

/-! ### All goals -/

theorem composed_produce (G : ∀ goal, Composed (g.reach goal)) :
    ∀ goal, Composed (g.produce goal)
  | .query stop => composed_query G stop
  | .unary => .nested (composed_signed G) .fail
  | .binary level => composed_binary G level
  | .pipeOperator => .nested (composed_pipeOperator G) .fail
  | .sources => composed_primary G

/-- Every goal is reached by elementary steps. -/
theorem composed_reachIn : ∀ steps goal, Composed (Grammar.reachIn steps goal)
  | 0, _ => .fail
  | steps + 1, goal => composed_produce (composed_reachIn steps) goal

end KustoFacts.Parser
