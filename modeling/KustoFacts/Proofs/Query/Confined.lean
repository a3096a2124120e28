import KustoFacts.Proofs.Query.Part

/-!
    Statements that are given up. A production keeps to the statement it reads from, and a block is
    left by the brace that closes it, whatever is wrong within. So what is left of a statement after
    a fault is skipped with its braces counted rightly, and it ends where its block or the statement
    itself does. There is one lemma for each production, about a grammar whose goals keep to the
    statement (`Confines`). -/

namespace KustoFacts.Parser

variable {α β : Type} {P : Part} {depth : Nat} {s t : ParserState} {g : Grammar}

/-- A grammar whose goals keep to a statement. The statements of a block end at the brace that closes
    it, whatever is wrong with them. -/
structure Confines (P : Part) (g : Grammar) : Prop where
  bound : P.size < g.bound
  unary {s : ParserState} : P.Keeps (g.reach .unary) s
  binary {s : ParserState} (level : Nat) : P.Keeps (g.reach (.binary level)) s
  pipeOperator {s : ParserState} : P.Keeps (g.reach .pipeOperator) s
  sources {s : ParserState} : P.Keeps (g.reach .sources) s
  query {s : ParserState} {depth : Nat} (h : P.Holds (depth + 1) s) :
    ∃ node t, (g.reach (.query .rightBrace)).run s = (some node, t) ∧ P.Holds (depth + 1) t ∧
      t.current.kind = .rightBrace

section Productions

/-! #### Items and names -/

theorem keeps_commaRound {item : Parser Node} {found : List Node} (h : P.Keeps item s) :
    P.Keeps (commaRound item found) s := .first h fun _ _ => .accept rfl .pure .pure

theorem keeps_itemsByComma {bound : Nat} {item : Parser Node} (h : ∀ t, P.Keeps item t) :
    P.Keeps (itemsByComma bound item) s := .loop fun _ t => keeps_commaRound (h t)

theorem keeps_itemsUntil {bound : Nat} {close : TokenKind} {item : Parser Node}
    (h : ∀ t, P.Keeps item t) : P.Keeps (itemsUntil bound close item) s := by
  refine .loop fun found t => .look ?_
  split
  · exact .pure
  · exact keeps_commaRound (h t)

theorem keeps_dottedName {bound : Nat} {name : Bytes} : P.Keeps (dottedName bound name) s := by
  refine .loop fun name t => .look (.look ?_)
  split
  next hdot =>
    simp only [Bool.and_eq_true, decide_eq_true_eq] at hdot
    refine .take hdot.1 rfl (.look (.take hdot.2 rfl .pure))
  next => exact .pure

variable (C : Confines P g)

/-! #### Expressions -/

theorem keeps_typeName : P.Keeps typeName s := by
  refine .look ?_
  split
  next hword => exact .take hword rfl .pure
  next => exact .refuse

theorem keeps_operatorText {op : Token} : P.Keeps (operatorText op) s := by
  unfold operatorText
  split
  · refine .look ?_
    split
    next hregex => exact .take (Token.kind_of_isWord hregex) rfl .pure
    next => exact .refuse_bind
  · exact .pure

include C

theorem keeps_betweenTail (hkind : s.current.kind.isEdge = false) {first : Token} {left : Node}
    {op : Bytes} : P.Keeps (betweenTail g first left op) s :=
  .skip hkind (.expect rfl fun _ => .first (C.binary 0) fun _ _ => .expect rfl fun _ =>
    .first (C.binary 0) fun _ _ => .expect rfl fun _ => .build)

theorem keeps_binaryRound {level : Nat} {first : Token} {left : Node} :
    P.Keeps (binaryRound g level first left) s := by
  refine .look ?_
  split
  · exact .pure
  next hlevel =>
    have hedge := isEdge_of_infixLevel hlevel
    refine .look ?_
    split
    · exact .pure
    split
    · exact .first (keeps_betweenTail C hedge) fun _ _ => .pure
    · exact .skip hedge (.first keeps_operatorText fun _ _ => .first (C.binary _) fun _ _ => .pure)

theorem keeps_binary (level : Nat) : P.Keeps (binary g level) s :=
  .look (.first C.unary fun _ _ => .loop fun _ _ => keeps_binaryRound C)

theorem keeps_expression : P.Keeps (expression g) s := keeps_binary C 0

theorem keeps_namedOrExpression : P.Keeps (namedOrExpression g) s := by
  refine .look (.first (keeps_expression C) fun left t => .look ?_)
  split
  · exact .pure
  next hassign =>
    split
    · exact .refuse
    · exact .take (not_not.1 hassign) rfl
        (.first (keeps_expression C) fun _ _ => .build)

theorem keeps_assigned : P.Keeps (assigned g) s :=
  .accept rfl (.first (keeps_expression C) fun _ _ => .pure) .pure

theorem keeps_operatorArgument : P.Keeps (operatorArgument g) s :=
  .look (.first (keeps_namedOrExpression C) fun _ _ =>
    .accept rfl (.first keeps_typeName fun _ _ => .build) .pure)

omit C

/-! #### Operators -/

theorem keeps_paramValue : P.Keeps paramValue s := by
  refine .look ?_
  split
  next hkind =>
    refine .take hkind rfl ?_
    split
    · exact .build
    · exact .build
  next hkind => exact .take hkind rfl .build
  next hkind => exact .take hkind rfl .build
  next hkind => exact .take hkind rfl .build
  next hkind =>
    refine .look ?_
    split
    next hnumber =>
      exact .take hkind rfl (.take hnumber rfl
        (.first .build fun _ _ => .build))
    next => exact .refuse
  next => exact .refuse

theorem keeps_namedParameter {bound : Nat} (hword : s.current.kind = .word) :
    P.Keeps (namedParameter bound) s :=
  .look (.take hword rfl (.first keeps_dottedName fun _ _ =>
    .expect rfl fun _ => .first keeps_paramValue fun _ _ => .build))

theorem keeps_params {op : Bytes} : P.Keeps (params g op) s :=
  .loop fun _ _ => .ask (asks_startsParam op)
    (fun hword => .first (keeps_namedParameter hword) fun _ _ => .pure) .pure

include C

theorem keeps_expressions : P.Keeps (itemsByComma g.bound (expression g)) s :=
  keeps_itemsByComma fun _ => keeps_expression C

theorem keeps_conditions : P.Keeps (conditions g) s := by
  refine .look ?_
  split
  next hon => exact .take (Token.kind_of_isWord hon) rfl (keeps_expressions C)
  next => exact .pure

theorem keeps_joinLike (hword : s.current.kind = .word) {form : Option Bytes → Form} :
    P.Keeps (joinLike g form) s :=
  .look (.take hword rfl (.first keeps_params fun _ _ =>
    .first (keeps_expression C) fun _ _ => .first (keeps_conditions C) fun _ _ => .look .build))

theorem keeps_union (hword : s.current.kind = .word) : P.Keeps (Parser.union g) s :=
  .look (.take hword rfl (.first keeps_params fun _ _ =>
    .first (keeps_expressions C) fun _ _ => .build))

theorem keeps_pipes {first : Token} {source : Node} : P.Keeps (pipes g first source) s :=
  .loop fun _ _ => .accept rfl (.first C.pipeOperator fun _ _ => .pure) .pure

theorem keeps_subquery (hparen : s.current.kind = .leftParen) : P.Keeps (subquery g) s :=
  .look (.take hparen rfl (.look (.first C.pipeOperator fun _ _ =>
    .first .build fun _ _ => .first (keeps_pipes C) fun _ _ => .expect rfl fun _ => .build)))

/-- Statements in braces leave them by the brace that closes them. -/
theorem braced_closes (h : P.Holds (depth + 1) s) : P.Holds depth ((braced g).run s).2 := by
  obtain ⟨node, t, hrun, ht, hkind⟩ := C.query h
  obtain ⟨less, hless, hadvance⟩ := ht.closeBrace hkind
  obtain rfl : depth = less := by omega
  rw [braced, run_bind, hrun]
  simp only [run_bind, expect, if_pos hkind]
  exact hadvance

theorem keeps_block (hbrace : s.current.kind = .leftBrace) : P.Keeps (block g) s :=
  fun _ h => braced_closes C (h.openBrace hbrace)

theorem keeps_schemaAndRows : P.Keeps (schemaAndRows g) s :=
  .look (.expect rfl fun _ => .first (keeps_itemsUntil fun _ => keeps_operatorArgument C) fun _ _ =>
    .expect rfl fun _ => .first .build fun _ _ => .look (.expect rfl fun _ =>
      .first (keeps_itemsUntil fun _ => keeps_expression C) fun _ _ => .expect rfl fun _ =>
        .first .build fun _ _ => .pure))

theorem keeps_given {keyword : Bytes} : P.Keeps (given g keyword) s := by
  unfold given
  split
  · exact keeps_schemaAndRows C
  · exact .pure

theorem keeps_searched {keyword : Bytes} : P.Keeps (searched g keyword) s := by
  unfold searched
  split
  · refine .look (.look ?_)
    split
    next hin =>
      simp only [Bool.and_eq_true] at hin
      exact .take (Token.kind_of_isWord hin.1) rfl (.first C.sources fun _ _ => .pure)
    next => exact .pure
  · exact .pure

theorem keeps_bodyRound {found : List Node} : P.Keeps (bodyRound g found) s := by
  refine .look ?_
  split
  · exact .pure
  refine .look ?_
  split
  next hclause =>
    simp only [Bool.or_eq_true, decide_eq_true_eq] at hclause
    rcases hclause with hcomma | hclause
    · exact .take hcomma rfl .pure
    · exact .take (kind_of_isClause hclause) rfl .pure
  split
  next hbrace => exact .first (keeps_block C hbrace) fun _ _ => .pure
  · exact .ask asks_startsSubquery (fun hparen => .first (keeps_subquery C hparen) fun _ _ => .pure)
      (.first (keeps_operatorArgument C) fun _ _ => .pure)

theorem keeps_operator (hword : s.current.kind = .word) : P.Keeps (operator g) s := by
  refine .look (.take hword rfl (.first keeps_params fun _ _ =>
    .first (keeps_given C) fun _ _ => .first (keeps_searched C) fun _ _ =>
      .first (.loop fun _ _ => keeps_bodyRound C) fun _ _ => ?_))
  split
  · exact .refuse_bind
  · exact .build

theorem keeps_leading (hword : s.current.kind = .word) : P.Keeps (leading g) s := by
  refine .look ?_
  split
  · exact keeps_union C hword
  · exact keeps_operator C hword

theorem keeps_pipeOperator : P.Keeps (pipeOperator g) s := by
  refine .look ?_
  split
  · exact .refuse
  next hne =>
    have hword := not_not.1 hne
    split
    · exact keeps_joinLike C hword
    split
    · exact keeps_joinLike C hword
    split
    · exact keeps_union C hword
    split
    · exact keeps_operator C hword
    · exact .refuse

/-! #### Operands -/

theorem keeps_parenItem : P.Keeps (parenItem g) s := by
  refine .ask asks_startsSubquery (fun hparen => keeps_subquery C hparen) (.look (.look ?_))
  split
  next hleading =>
    exact .first (keeps_leading C (word_of_startsLeading hleading)) fun _ _ => keeps_pipes C
  next => exact .first (keeps_namedOrExpression C) fun _ _ => keeps_pipes C

theorem keeps_call (hword : s.current.kind = .word) (hparen : s.next.kind = .leftParen) :
    P.Keeps (call g) s :=
  .look (.take hword rfl (.take hparen rfl
    (.first (keeps_itemsUntil fun _ => keeps_parenItem C) fun _ _ => .expect rfl fun _ => .build)))

omit C in
/-- Of a name in brackets only the brackets are looked at. -/
theorem keeps_bracketName (hbracket : s.current.kind = .leftBracket)
    (hname : s.next.kind.isEdge = false) : P.Keeps bracketName s :=
  .look (.take hbracket rfl (.look (.skip hname (.expect rfl fun _ => .build))))

theorem keeps_bracketList (hbracket : s.current.kind = .leftBracket) : P.Keeps (bracketList g) s :=
  .look (.take hbracket rfl (.first (keeps_itemsUntil fun _ => keeps_expression C)
    fun _ _ => .expect rfl fun _ => .build))

theorem keeps_parenthesized (hparen : s.current.kind = .leftParen) :
    P.Keeps (parenthesized g) s := by
  refine .look (.take hparen rfl
    (.first (keeps_itemsUntil fun _ => keeps_parenItem C) fun items _ => .expect rfl fun _ => ?_))
  split
  · exact .build
  · exact .build

omit C in
theorem keeps_wildcard (hword : s.current.kind = .word) : P.Keeps (wildcard g) s := by
  refine .look (.take hword rfl (.first (.loop fun pattern t => ?_) fun _ _ => .build))
  refine .look (.look ?_)
  split
  next htouches =>
    simp only [Bool.and_eq_true, Bool.or_eq_true, decide_eq_true_eq] at htouches
    rcases htouches.1 with hstar | hword
    · exact .take hstar rfl .pure
    · exact .take hword rfl .pure
  next => exact .pure

omit C in
theorem keeps_adjacentStrings : P.Keeps (adjacentStrings g) s :=
  .loop fun _ _ => .accept rfl .pure .pure

theorem keeps_primary : P.Keeps (primary g) s := by
  refine .look ?_
  split
  next hkind => exact .take hkind rfl .build
  next hkind => exact .take hkind rfl .build
  next hkind =>
    exact .take hkind rfl (.first keeps_adjacentStrings fun _ _ => .build)
  next hword =>
    refine .look (.look ?_)
    split
    · exact .take hword rfl .build
    split
    next hcall =>
      simp only [startsCall, Bool.and_eq_true, decide_eq_true_eq] at hcall
      exact keeps_call C hword hcall.1
    split
    · exact keeps_wildcard hword
    · exact .take hword rfl .build
  next hbracket =>
    refine .look (.look ?_)
    split
    next hname =>
      simp only [Bool.and_eq_true, decide_eq_true_eq] at hname
      exact keeps_bracketName hbracket (by rw [hname.1]; rfl)
    next => exact keeps_bracketList C hbracket
  next hparen => exact keeps_parenthesized C hparen
  next hstar => exact .take hstar rfl .build
  next => exact .refuse

/-- A name in brackets after a dot may be spelled by any token that is no edge. -/
theorem keeps_selector (h : P.Holds depth s) (hdot : s.current.kind = .dot)
    (hnext : s.next.kind = .word ∨ s.next.kind = .leftBracket) :
    P.Keeps (selector g) s.advance := by
  refine .look ?_
  split
  next hcurrent =>
    have hbracket : s.next.kind = .leftBracket := hcurrent
    obtain ⟨more, hmore, htokens⟩ := h.two_left (by simp [hdot]) (by simp [hbracket])
    obtain ⟨u, hu, hopen, hclose⟩ := P.recoverable.members _ _ _ hmore hdot hbracket
    obtain ⟨more, rfl⟩ : ∃ rest, more = u :: rest := ⟨more.tail, (List.cons_head?_tail hu).symm⟩
    obtain rfl : s.advance.next = u := by rw [ParserState.next, htokens]; rfl
    have hsemi := P.recoverable.unseparated s.advance.next (hmore.subset (by simp))
    exact keeps_bracketName hbracket (TokenKind.isEdge_eq_false.2 ⟨hopen, hclose, hsemi⟩)
  next hbracket =>
    have hword : s.next.kind = .word := hnext.resolve_right hbracket
    refine .look ?_
    split
    next hparen => exact keeps_call C hword hparen
    next => exact .take hword rfl .build

theorem keeps_postfixRound {first : Token} {node : Node} :
    P.Keeps (postfixRound g first node) s := by
  intro depth h
  refine Part.Keeps.look (.look ?_) depth h
  split
  next hmember =>
    simp only [Bool.and_eq_true, Bool.or_eq_true, decide_eq_true_eq] at hmember
    exact .take hmember.1 rfl (.first (keeps_selector C h hmember.1 hmember.2)
      fun _ _ => .first .build fun _ _ => .pure)
  next =>
    refine .look ?_
    split
    next hindex =>
      simp only [Bool.and_eq_true, decide_eq_true_eq] at hindex
      exact .take hindex.1 rfl (.first (keeps_expression C) fun _ _ =>
        .expect rfl fun _ => .first .build fun _ _ => .pure)
    next => exact .pure

theorem keeps_selected : P.Keeps (selected g) s :=
  .look (.first (keeps_primary C) fun _ _ => .loop fun _ _ => keeps_postfixRound C)

theorem keeps_signed : P.Keeps (signed g) s := by
  refine .look ?_
  split
  next hsign =>
    simp only [Bool.or_eq_true, decide_eq_true_eq] at hsign
    rcases hsign with hkind | hkind
    · exact .take hkind rfl (.first C.unary fun _ _ => .build)
    · exact .take hkind rfl (.first C.unary fun _ _ => .build)
  next => exact keeps_selected C

/-! #### Statements -/

theorem keeps_pipeExpression : P.Keeps (pipeExpression g) s := by
  refine .look (.look ?_)
  split
  next hleading =>
    exact .first (keeps_leading C (word_of_startsLeading hleading)) fun _ _ => keeps_pipes C
  next => exact .first (keeps_expression C) fun _ _ => keeps_pipes C

omit C in
theorem keeps_nameDeclaration : P.Keeps nameDeclaration s := by
  refine .look ?_
  split
  next hword => exact .take hword rfl (.first .build fun _ _ => .pure)
  next =>
    refine .look (.look ?_)
    split
    next hquoted =>
      simp only [Bool.and_eq_true, decide_eq_true_eq] at hquoted
      exact .take hquoted.1.1 rfl (.look (.take hquoted.1.2 rfl
        (.take hquoted.2 rfl (.first .build fun _ _ => .pure))))
    next => exact .refuse

omit C in
/-- Parentheses that are balanced are passed over up to the one that closes them. -/
theorem run_closeRounds {inner rest : List Token} {closing : Token}
    (hclosing : closing.kind = .rightParen) (hinner : ∀ t ∈ inner, t.kind ≠ .endOfInput)
    (bound : Nat) (hdepth : depthAfter? .leftParen .rightParen depth inner = some 0)
    (htokens : s.tokens = inner ++ closing :: rest) (hbound : inner.length < bound) :
    ∃ t, rounds closeRound bound (depth + 1) s = (some (), t) ∧ t.tokens = rest ∧
      t.reported = s.reported := by
  induction inner generalizing bound depth s with
  | nil =>
    obtain ⟨bound, rfl⟩ : ∃ m, bound = m + 1 := ⟨bound - 1, by simp at hbound; omega⟩
    obtain rfl : depth = 0 := Option.some.inj hdepth
    have hcurrent : s.current.kind = .rightParen := by rw [ParserState.current, htokens]; exact hclosing
    refine ⟨s.advance, ?_, by rw [ParserState.advance, htokens]; rfl, rfl⟩
    rw [rounds_succ, closeRound, run_current_bind, hcurrent]
    rfl
  | cons u us ih =>
    obtain ⟨bound, rfl⟩ : ∃ m, bound = m + 1 := ⟨bound - 1, by simp at hbound; omega⟩
    obtain rfl : s.current = u := by rw [ParserState.current, htokens]; rfl
    have hus : s.advance.tokens = us ++ closing :: rest := by rw [ParserState.advance, htokens]; rfl
    have hfew : us.length < bound := Nat.lt_of_succ_lt_succ hbound
    have hends : ∀ t ∈ us, t.kind ≠ .endOfInput := fun t ht => hinner t (List.mem_cons_of_mem _ ht)
    have hround : ∃ depth', (closeRound (depth + 1)).run s =
          (some (.again (depth' + 1)), s.advance) ∧
        depthAfter? .leftParen .rightParen depth' us = some 0 := by
      rw [closeRound, run_current_bind]
      split
      next hkind => exact absurd hkind (hinner _ List.mem_cons_self)
      next hkind =>
        rw [depthAfter?_opening hkind] at hdepth
        exact ⟨depth + 1, rfl, hdepth⟩
      next hkind =>
        obtain ⟨less, rfl, hless⟩ := depthAfter?_closing (by decide) hkind hdepth
        refine ⟨less, ?_, hless⟩
        rw [run_advance_bind, if_neg (by omega)]
        rfl
      next hopen hclose =>
        rw [depthAfter?_other hopen hclose] at hdepth
        exact ⟨depth, rfl, hdepth⟩
    obtain ⟨depth', hrun, hdepth'⟩ := hround
    rw [rounds_succ, hrun]
    exact ih hends bound hdepth' hus hfew

/-- The type of a parameter is passed over if it stands in parentheses. -/
theorem keeps_parameterType (h : P.Holds depth s) (hcolon : s.current.kind = .colon) :
    P.Keeps (parameterType g) s.advance := by
  refine .look ?_
  split
  next hcurrent =>
    have hparen : s.next.kind = .leftParen := hcurrent
    obtain ⟨more, hmore, htokens⟩ := h.two_left (by simp [hcolon]) (by simp [hparen])
    obtain ⟨inner, closing, rest, rfl, hclosing, hparens, hbraces⟩ :=
      P.recoverable.types _ _ _ hmore hcolon hparen
    have hown : s.next :: (inner ++ closing :: rest) <:+ P.own := (List.suffix_cons _ _).trans hmore
    have hinner : ∀ t ∈ inner, t.kind ≠ .endOfInput := fun t ht =>
      (P.stands t (List.mem_cons_of_mem _ (hown.subset (by simp [ht])))).1
    have hfew : inner.length < g.bound := by
      have hlength := hown.length_le
      have hbound := C.bound
      simp only [List.length_cons, List.length_append, Part.size] at hlength hbound
      omega
    have hclosed : s.advance.advance.tokens = inner ++ closing :: (rest ++ P.semicolon :: P.after) := by
      rw [ParserState.advance, htokens]
      simp
    obtain ⟨t, hrun, hrest, hreported⟩ := run_closeRounds hclosing hinner g.bound hparens hclosed hfew
    intro inside hs
    obtain ⟨left, -, hleft, hdepth⟩ := hs.tokens
    obtain rfl : left = s.next :: (inner ++ closing :: rest) :=
      List.append_cancel_right (hleft.symm.trans htokens)
    -- all braces in the parentheses are closed in them
    rw [depthAfter?_other (by simp [hparen]) (by simp [hparen]), hbraces.depthAfter?_append,
      depthAfter?_other (by simp [hclosing]) (by simp [hclosing])] at hdepth
    have hsuffix : rest <:+ P.own :=
      ((List.suffix_cons closing rest).trans (List.suffix_append _ _)).trans
        ((List.suffix_cons _ _).trans hown)
    rw [run_advance_bind, closeParens, run_bind, loop]
    simp only [hrun]
    exact ⟨⟨rest, hsuffix, hrest, hdepth⟩, fun d hd => hs.reported d (hreported ▸ hd)⟩
  next => exact .first keeps_typeName fun _ _ => .pure

theorem keeps_parameter : P.Keeps (parameter g) s := fun depth h =>
  Part.Keeps.look (.expect rfl fun hword => .expect rfl fun hcolon =>
    .first (keeps_parameterType C (h.advance (by rw [hword]; rfl)) hcolon) fun _ _ =>
      .first (keeps_assigned C) fun _ _ => .build) depth h

theorem keeps_parameterList : P.Keeps (parameterList g) s :=
  .expect rfl fun _ => .first (keeps_itemsUntil fun _ => keeps_parameter C) fun _ _ =>
    .expect rfl fun _ => .pure

/-- Statements in braces, and what comes after them. -/
theorem keeps_braces {k : Node → Parser β} (hk : ∀ n t, P.Keeps (k n) t) :
    P.Keeps (expect .leftBrace >>= fun _ => braced g >>= k) s := by
  intro depth h
  by_cases hbrace : s.current.kind = .leftBrace
  · have hclosed := braced_closes C (h.openBrace hbrace)
    simp only [run_bind, expect, if_pos hbrace]
    rcases hrun : (braced g).run s.advance with ⟨_ | n, t⟩ <;> rw [hrun] at hclosed
    · exact hclosed
    · exact hk n t depth hclosed
  · simp only [run_bind, expect, if_neg hbrace]
    exact h.report _

theorem keeps_functionDeclaration : P.Keeps (functionDeclaration g) s :=
  .look (.first .acceptWord fun _ _ => .first (keeps_parameterList C) fun _ _ =>
    keeps_braces C fun _ _ => .build)

theorem keeps_letStatement (hword : s.current.kind = .word) : P.Keeps (letStatement g) s :=
  .look (.take hword rfl (.first keeps_nameDeclaration fun _ _ =>
    .expect rfl fun _ => .ask asks_startsFunction
      (fun _ => .first (keeps_functionDeclaration C) fun _ _ => .build)
      (.first (keeps_pipeExpression C) fun _ _ => .build)))

theorem keeps_setStatement (hword : s.current.kind = .word) (hnext : s.next.kind = .word) :
    P.Keeps (setStatement g) s :=
  .look (.take hword rfl (.look (.take hnext rfl
    (.first keeps_dottedName fun _ _ => .first (keeps_assigned C) fun _ _ => .build))))

theorem keeps_declareStatement (hword : s.current.kind = .word) (hnext : s.next.kind = .word) :
    P.Keeps (declareStatement g) s :=
  .look (.take hword rfl (.take hnext rfl
    (.first (keeps_parameterList C) fun _ _ => .build)))

theorem keeps_aliasStatement (hword : s.current.kind = .word) (hnext : s.next.kind = .word) :
    P.Keeps (aliasStatement g) s :=
  .look (.take hword rfl (.take hnext rfl
    (.first keeps_nameDeclaration fun _ _ => .expect rfl fun _ =>
      .first (keeps_expression C) fun _ _ => .build)))

theorem keeps_statement : P.Keeps (statement g) s := by
  refine .look (.look ?_)
  split
  next hlet =>
    simp only [Bool.and_eq_true] at hlet
    exact keeps_letStatement C (Token.kind_of_isWord hlet.1)
  split
  next hset =>
    simp only [Bool.and_eq_true, decide_eq_true_eq] at hset
    exact keeps_setStatement C (Token.kind_of_isWord hset.1) hset.2
  split
  next hdeclare =>
    simp only [Bool.and_eq_true] at hdeclare
    exact keeps_declareStatement C (Token.kind_of_isWord hdeclare.1) (Token.kind_of_isWord hdeclare.2)
  split
  next halias =>
    simp only [Bool.and_eq_true] at halias
    exact keeps_aliasStatement C (Token.kind_of_isWord halias.1) (Token.kind_of_isWord halias.2)
  · exact .first (keeps_pipeExpression C) fun _ _ => .build

/-! #### Queries -/

omit C in
/-- Where the statements of a block end, they end at the brace that closes it. -/
theorem rightBrace_of_ends (h : P.Holds (depth + 1) s) (hends : Ends .rightBrace s) :
    s.current.kind = .rightBrace := by
  simp only [Ends, endsStatement, Bool.or_eq_true, decide_eq_true_eq] at hends
  rcases hends with (hsemi | hend) | hbrace
  · exact absurd (h.semicolon hsemi).1 (Nat.succ_ne_zero _)
  · exact absurd hend h.kind_ne_end
  · exact hbrace

/-- A round within a statement reads or skips it to its end, inside the same braces. -/
theorem run_statementRound (h : P.Holds depth s) (hwithin : ¬Ends (stopAt depth) s)
    (found : List Node) :
    ∃ found' t, (statementRound g (stopAt depth) found).run s = (some (.again found'), t) ∧
      P.Holds depth t ∧ Ends (stopAt depth) t := by
  have hread := keeps_statement C depth h
  have skipped {found : List Node} {u : ParserState} (hu : P.Holds depth u) :
      ∃ t, (skipRest g (stopAt depth) found).run u = (some (.again found), t) ∧ P.Holds depth t ∧
        Ends (stopAt depth) t := by
    obtain ⟨t, hrun, ht, hends⟩ := run_skipStatement hu C.bound
    exact ⟨t, by rw [skipRest, run_bind, hrun]; rfl, ht, hends⟩
  rw [statementRound_within hwithin, afterStatement, run_state_bind]
  split
  · obtain ⟨t, hrun, ht⟩ := skipped hread
    exact ⟨_, t, hrun, ht⟩
  split
  · obtain ⟨t, hrun, ht⟩ := skipped (hread.report _)
    exact ⟨_, t, hrun, ht⟩
  next hends => exact ⟨_, _, rfl, hread, by simpa [Ends] using hends⟩

/-- The statements of a block end at the brace that closes it: there is one of them at most, and it
    is read or skipped up to there. -/
theorem run_blockStatements (h : P.Holds (depth + 1) s) (bound : Nat) (found : List Node) :
    ∃ found' t, rounds (statementRound g .rightBrace) (bound + 2) found s = (some found', t) ∧
      P.Holds (depth + 1) t ∧ t.current.kind = .rightBrace := by
  by_cases hends : Ends .rightBrace s
  · have hbrace := rightBrace_of_ends h hends
    exact ⟨_, s, by rw [rounds_succ, Frame.statementRound_stop (.inr hbrace)], h, hbrace⟩
  · obtain ⟨found', t, hrun, ht, hends'⟩ := run_statementRound C h hends found
    have hbrace := rightBrace_of_ends ht hends'
    refine ⟨found'.reverse, t, ?_, ht, hbrace⟩
    rw [stopAt] at hrun
    rw [rounds_succ, hrun]
    dsimp only
    rw [rounds_succ, Frame.statementRound_stop (.inr hbrace)]

theorem run_block (h : P.Holds (depth + 1) s) :
    ∃ node t, (query g .rightBrace).run s = (some node, t) ∧ P.Holds (depth + 1) t ∧
      t.current.kind = .rightBrace := by
  have hdeeper : P.Holds (depth + 1) (Frame.deeper s) := { h with }
  obtain ⟨bound, hbound⟩ : ∃ m, g.bound = m + 2 :=
    ⟨g.bound - 2, by have hb := C.bound; simp only [Part.size] at hb; omega⟩
  have hnested : ∃ found t, (nested (loop (statementRound g .rightBrace) g.bound []) do
        skipStatement g .rightBrace
        return []).run s = (some found, t) ∧ P.Holds (depth + 1) t ∧
      t.current.kind = .rightBrace := by
    rw [nested]
    dsimp only
    split
    · obtain ⟨found, t, hrun, ht, hkind⟩ := run_blockStatements C hdeeper bound []
      rw [← hbound] at hrun
      refine ⟨found, { t with depth := t.depth - 1 }, ?_, { ht with }, hkind⟩
      rw [loop]
      dsimp only
      rw [show rounds _ g.bound [] { s with depth := s.depth + 1 } = (some found, t) from hrun]
    · obtain ⟨t, hrun, ht, hends⟩ := run_skipStatement hdeeper.reportNesting C.bound
      have hkind := rightBrace_of_ends ht hends
      refine ⟨[], { t with depth := t.depth - 1 }, ?_, { ht with }, hkind⟩
      have hskip : (skipStatement g .rightBrace).run (Frame.deeper s).reportNesting =
        (some (), t) := hrun
      rw [run_bind, show { s with depth := s.depth + 1 } = Frame.deeper s from rfl, hskip]
      rfl
  obtain ⟨found, t, hrun, ht⟩ := hnested
  rw [query, run_current_bind, run_bind, hrun]
  exact ⟨_, t, rfl, ht⟩

end Productions

/-! ### All goals -/

theorem confines_produce (C : Confines P g) {bound : Nat} (hbound : P.size < bound) :
    Confines P ⟨bound, g.produce⟩ where
  bound := hbound
  unary := .nested (keeps_signed C) fun _ => .fail
  binary level := keeps_binary C level
  pipeOperator := .nested (keeps_pipeOperator C) fun _ => .fail
  sources := keeps_primary C
  query h := run_block C h

/-- What is reached without any steps left: of a block all is skipped, and nothing else is read. -/
def skipping (bound : Nat) : Goal → Parser Node
  | .query stop => do
    let first ← current
    skipStatement ⟨bound, fun _ => fail⟩ stop
    build first .query []
  | _ => fail

theorem confines_skipping {bound : Nat} (hbound : P.size < bound) :
    Confines P ⟨bound, skipping bound⟩ where
  bound := hbound
  unary := .fail
  binary _ := .fail
  pipeOperator := .fail
  sources := .fail
  query {s depth} h := by
    obtain ⟨t, hrun, ht, hends⟩ := @run_skipStatement P _ s ⟨bound, fun _ => fail⟩ h hbound
    have hskip : (skipStatement ⟨bound, fun _ => fail⟩ .rightBrace).run s = (some (), t) := hrun
    have hkind := rightBrace_of_ends ht hends
    refine ⟨.mk .none .query (t.spanFrom s.current) s.current [], t, ?_, ht, hkind⟩
    change (skipping bound (.query .rightBrace)).run s = _
    rw [skipping, run_current_bind, run_bind, hskip]
    rfl

theorem confines_above {spare : Nat} (hspare : P.size < spare) :
    ∀ steps, Confines P (.above (skipping spare) spare steps)
  | 0 => confines_skipping hspare
  | steps + 1 => confines_produce (confines_above hspare steps) (by omega)

end KustoFacts.Parser
