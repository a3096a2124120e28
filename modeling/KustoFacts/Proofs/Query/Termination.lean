import KustoFacts.Proofs.Query.Bounds
import KustoFacts.Proofs.Query.Parsed

/-!
    Every parse comes to an end, by itself and not because a bound is used up. What is read is
    consumed: a production that returns something has consumed a token, and so has a round that goes
    on. At the end there is a tree, and no token is left. -/

namespace KustoFacts

/-- The productions that begin with a token of their own wherever they are called. A query may be
    empty, and the parameters of an operator and the conditions of a join may be left out. -/
inductive Grammar.Production (g : Grammar) : {α : Type} → Parser α → Prop where
  | unary : g.Production (g.reach .unary)
  | levelOf (level : Nat) : g.Production (g.reach (.binary level))
  | piped : g.Production (g.reach .pipeOperator)
  | searched : g.Production (g.reach .sources)
  | statement : g.Production (Parser.statement g)
  | letStatement : g.Production (Parser.letStatement g)
  | functionDeclaration : g.Production (Parser.functionDeclaration g)
  | declareStatement : g.Production (Parser.declareStatement g)
  | aliasStatement : g.Production (Parser.aliasStatement g)
  | expressionStatement (first : Token) : g.Production (Parser.expressionStatement g first)
  | nameDeclaration : g.Production Parser.nameDeclaration
  | parameterList : g.Production (Parser.parameterList g)
  | parameter : g.Production (Parser.parameter g)
  | pipeExpression : g.Production (Parser.pipeExpression g)
  | pipeOperator : g.Production (Parser.pipeOperator g)
  | joinLike (form : Option Bytes → Form) : g.Production (Parser.joinLike g form)
  | union : g.Production (Parser.union g)
  | namedParameter : g.Production (Parser.namedParameter g.bound)
  | paramValue : g.Production Parser.paramValue
  | subquery : g.Production (Parser.subquery g)
  | block : g.Production (Parser.block g)
  | braced : g.Production (Parser.braced g)
  | schemaAndRows : g.Production (Parser.schemaAndRows g)
  | operatorArgument : g.Production (Parser.operatorArgument g)
  | expressions : g.Production (Parser.itemsByComma g.bound (Parser.expression g))
  | expression : g.Production (Parser.expression g)
  | binary (level : Nat) : g.Production (Parser.binary g level)
  | betweenTail (first : Token) (left : Node) (op : Bytes) :
      g.Production (Parser.betweenTail g first left op)
  | namedOrExpression : g.Production (Parser.namedOrExpression g)
  | typeName : g.Production Parser.typeName
  | parenItem : g.Production (Parser.parenItem g)
  | signed : g.Production (Parser.signed g)
  | selected : g.Production (Parser.selected g)
  | primary : g.Production (Parser.primary g)
  | call : g.Production (Parser.call g)
  | bracketName : g.Production Parser.bracketName
  | bracketList : g.Production (Parser.bracketList g)
  | parenthesized : g.Production (Parser.parenthesized g)

/-- The productions that begin with whatever token is there. They are called only where it has been
    seen what this token is, and that it is not the end. -/
inductive Grammar.Begun (g : Grammar) : Parser Node → Prop where
  | setStatement : g.Begun (Parser.setStatement g)
  | leading : g.Begun (Parser.leading g)
  | operator : g.Begun (Parser.operator g)
  | wildcard : g.Begun (Parser.wildcard g)
  | selector : g.Begun (Parser.selector g)

/-- What is read item by item. -/
inductive Grammar.Item (g : Grammar) : Parser Node → Prop where
  | parenItem : g.Item (Parser.parenItem g)
  | expression : g.Item (Parser.expression g)
  | operatorArgument : g.Item (Parser.operatorArgument g)
  | parameter : g.Item (Parser.parameter g)

open KustoFacts.Parser (Round)

/-- The rounds of all loops. -/
inductive Grammar.Repeats (g : Grammar) : {α β : Type} → (α → Parser (Round α β)) → Prop where
  | statements (stop : TokenKind) : g.Repeats (Parser.statementRound g stop)
  | skipped (stop : TokenKind) : g.Repeats (Parser.skipRound stop)
  | closed : g.Repeats Parser.closeRound
  | items (close : TokenKind) {item : Parser Node} (h : g.Item item) :
      g.Repeats (Parser.untilRound close item)
  | expressions : g.Repeats (Parser.commaRound (Parser.expression g))
  | names : g.Repeats Parser.dottedRound
  | params (op : Bytes) : g.Repeats (Parser.paramRound g op)
  | body : g.Repeats (Parser.bodyRound g)
  | pipes (first : Token) : g.Repeats (Parser.pipeRound g first)
  | infixes (level : Nat) (first : Token) : g.Repeats (Parser.binaryRound g level first)
  | selectors (first : Token) : g.Repeats (Parser.postfixRound g first)
  | pattern : g.Repeats Parser.wildcardRound
  | strings : g.Repeats Parser.stringRound

namespace Parser

variable {α β : Type} {text : Bytes} {read : Tokens} {g : Grammar} {s : ParserState}

theorem consumes_production (G : Consuming text read g) {p : Parser α} (h : g.Production p)
    (hs : s.Along text read) : Consumes p s := by
  cases h with
  | unary => exact G.unary hs
  | levelOf level => exact G.binary level hs
  | piped => exact G.pipeOperator hs
  | searched => exact G.sources hs
  | statement => exact consumes_statement G hs
  | letStatement => exact consumes_letStatement hs
  | functionDeclaration => exact consumes_functionDeclaration hs
  | declareStatement => exact consumes_declareStatement hs
  | aliasStatement => exact consumes_aliasStatement hs
  | expressionStatement first => exact consumes_expressionStatement G hs
  | nameDeclaration => exact consumes_nameDeclaration hs
  | parameterList => exact consumes_parameterList hs
  | parameter => exact consumes_parameter hs
  | pipeExpression => exact consumes_pipeExpression G hs
  | pipeOperator => exact consumes_pipeOperator G hs
  | joinLike form => exact consumes_joinLike G hs
  | union => exact consumes_union G hs
  | namedParameter => exact consumes_namedParameter hs
  | paramValue => exact consumes_paramValue hs
  | subquery => exact consumes_subquery G hs
  | block => exact consumes_block hs
  | braced => exact consumes_braced hs
  | schemaAndRows => exact consumes_schemaAndRows hs
  | operatorArgument => exact consumes_operatorArgument G hs
  | expressions => exact consumes_expressions G hs
  | expression => exact consumes_expression G hs
  | binary level => exact consumes_binary G hs level
  | betweenTail first left op => exact consumes_betweenTail hs
  | namedOrExpression => exact consumes_namedOrExpression G hs
  | typeName => exact consumes_typeName hs
  | parenItem => exact consumes_parenItem G hs
  | signed => exact consumes_signed G hs
  | selected => exact consumes_selected hs
  | primary => exact consumes_primary hs
  | call => exact consumes_call hs
  | bracketName => exact consumes_bracketName hs
  | bracketList => exact consumes_bracketList hs
  | parenthesized => exact consumes_parenthesized hs

theorem consumes_begun (G : Consuming text read g) {p : Parser Node} (h : g.Begun p)
    (hs : s.Along text read) (hkind : s.current.kind ≠ .endOfInput) : Consumes p s := by
  cases h with
  | setStatement => exact consumes_setStatement hs hkind
  | leading => exact consumes_leading G hs hkind
  | operator => exact consumes_operator hs hkind
  | wildcard => exact consumes_wildcard hs hkind
  | selector => exact consumes_selector hs hkind

theorem consumes_item (G : Consuming text read g) {p : Parser Node} (h : g.Item p)
    (hs : s.Along text read) : Consumes p s := by
  cases h with
  | parenItem => exact consumes_parenItem G hs
  | expression => exact consumes_expression G hs
  | operatorArgument => exact consumes_operatorArgument G hs
  | parameter => exact consumes_parameter hs

theorem advances_repeats (G : Consuming text read g) {step : α → Parser (Round α β)}
    (h : g.Repeats step) (a : α) (hs : s.Along text read) : Advances (step a) s := by
  cases h with
  | statements stop => exact advances_statementRound hs
  | skipped stop => exact advances_skipRound hs
  | closed => exact advances_closeRound hs
  | items close hitem => exact advances_untilRound hs (consumes_item G hitem hs)
  | expressions => exact .first hs (consumes_expression G hs)
  | names => exact advances_dottedRound hs
  | params op => exact advances_paramRound hs
  | body => exact advances_bodyRound hs G
  | pipes first => exact advances_pipeRound hs
  | infixes level first => exact advances_binaryRound hs
  | selectors first => exact advances_postfixRound hs
  | pattern => exact advances_wildcardRound hs
  | strings => exact advances_stringRound hs

/-- How the tokens of a text are parsed: no bound is used up, since it makes no difference what is
    reached then; wherever the parser can get to, what is read is consumed and a round that goes on
    has consumed a token; and all of the text is read in the end. -/
structure Settles (text : Bytes) (read : Tokens) : Prop where
  bounded : ∀ (bottom : Goal → Parser Node) (spare more : Nat),
    ((Grammar.above bottom spare (enough read.tokens.length + more)).reach (.query .endOfInput)).run
      (initial text read) = runQuery text read
  consumes : ∀ (steps : Nat) {α : Type} {p : Parser α},
    Grammar.Production ⟨steps, Grammar.reachIn steps⟩ p →
    ∀ s, (initial text read).Moves s → Consumes p s
  begun : ∀ (steps : Nat) {p : Parser Node}, Grammar.Begun ⟨steps, Grammar.reachIn steps⟩ p →
    ∀ s, (initial text read).Moves s → s.current.kind ≠ .endOfInput → Consumes p s
  advances : ∀ (steps : Nat) {α β : Type} {step : α → Parser (Round α β)},
    Grammar.Repeats ⟨steps, Grammar.reachIn steps⟩ step →
    ∀ a s, (initial text read).Moves s → Advances (step a) s
  ends : ∃ root t, runQuery text read = (some root, t) ∧ t.tokens = [] ∧
    t.current.kind = .endOfInput

/-- There is a tree in the end, and no token is left. -/
theorem ends_runQuery (h : tokenize text = .ok read) :
    ∃ root t, runQuery text read = (some root, t) ∧ t.tokens = [] ∧
      t.current.kind = .endOfInput := by
  obtain ⟨nodes, u, hrun, -⟩ := statementsOf_succeeds h
  obtain ⟨hroot, -, -, -⟩ := runQuery_eq text read
  have hmoves : (initial text read).Moves (runQuery text read).2 := (Parser.forward _ _).moves
  have hending := ((along_initial h).moves hmoves).1.ending
  have htokens := tokens_runQuery h
  rw [hrun, Option.map_some] at hroot
  refine ⟨_, (runQuery text read).2, Prod.ext hroot rfl, htokens, ?_⟩
  rw [ParserState.current, htokens, List.headD_nil, hending]
  exact (Tokens.laid_tokenize h).ending.1

end Parser

open KustoFacts.Parser

/-- Every text that has tokens is parsed, to its end and within all bounds. -/
theorem settles_parse (catalog : TableNames) {text : Bytes} {read : Tokens}
    (h : tokenize (Parsed.withoutMark text) = .ok read) :
    parse catalog text = .ok (.ofTokens catalog (Parsed.withoutMark text) read) ∧
      Settles (Parsed.withoutMark text) read := by
  have hinitial := along_initial h
  refine ⟨by rw [parse, h]; rfl, ?_, ?_, ?_, ?_, ?_⟩
  · intro bottom spare more
    have G := twins_above (Parsed.withoutMark text) read bottom spare more (enough read.tokens.length)
    exact (G.query .endOfInput hinitial (Nat.le_refl _)).symm
  · intro steps α p hp s hmoves
    exact consumes_production (consuming_reachIn _ _ _ _) hp (hinitial.moves hmoves).1
  · intro steps p hp s hmoves
    exact consumes_begun (consuming_reachIn _ _ _ _) hp (hinitial.moves hmoves).1
  · intro steps α β step hstep a s hmoves
    exact advances_repeats (consuming_reachIn _ _ _ _) hstep a (hinitial.moves hmoves).1
  · exact ends_runQuery h

/-- A text with faults in a block, after it and in an open parenthesis. -/
theorem settles_parse_faults :
    ∃ read, tokenize (bytes "let f=()\x7bT|\x7d;\x7d;let g=(x:(") = .ok read ∧
      (parse .empty (bytes "let f=()\x7bT|\x7d;\x7d;let g=(x:(")).toOption.map (·.diagnostics.length) =
        some 2 ∧
      Settles (bytes "let f=()\x7bT|\x7d;\x7d;let g=(x:(") read := by
  have hmark : Parsed.withoutMark (bytes "let f=()\x7bT|\x7d;\x7d;let g=(x:(") =
      bytes "let f=()\x7bT|\x7d;\x7d;let g=(x:(" := by decide
  obtain ⟨read, hread⟩ : ∃ read, tokenize (bytes "let f=()\x7bT|\x7d;\x7d;let g=(x:(") = .ok read :=
    ⟨_, rfl⟩
  have hview : (reading .empty (bytes "let f=()\x7bT|\x7d;\x7d;let g=(x:(")).toOption.map
      (fun (_, lexed, reported) => lexed.length + reported.length) = some 2 := by decide +kernel
  obtain ⟨p, lexed, reported, hparse, hmerged, hlength⟩ := parse_of_reading hview
  have hdiagnostics : p.diagnostics.length = 2 := by
    rw [hmerged, length_mergeByStart]
    exact hlength
  have hsettles := settles_parse .empty (hmark.symm ▸ hread)
  rw [hmark] at hsettles
  exact ⟨read, hread, by rw [hparse]; exact congrArg some hdiagnostics, hsettles.2⟩

end KustoFacts
