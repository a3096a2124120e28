import KustoFacts.Proofs.Query.Composed
import KustoFacts.Proofs.Query.ExprParsed
import KustoFacts.Proofs.Query.NestedSearches
import KustoFacts.Proofs.Query.ToEnd

/-!
    How deep parentheses may nest. Each pair of them takes one of the levels that reading may go down,
    beside the one of the text and the one of the name in the middle; the first token on the level
    after the last is where nesting is reported. Whatever is read, the level afterwards is the level
    before, and nesting is reported once in a text at most. -/

namespace KustoFacts

open KustoFacts.Parser KustoFacts.Frame
open KustoFacts.Expr (follow loop_done run_pipeRound run_postfixRound)

/-! ### One report -/

/-- The wording of nesting is the wording of nothing else. -/
theorem Fault.message_eq_nesting {fault : Fault} :
    fault.message = nestingTooDeep.message ↔ fault = .nestingTooDeep := by
  refine ⟨fun h => ?_, congrArg message⟩
  have hhead : fault.message.head? = some (byteOf 'Q') := congrArg List.head? h
  cases fault with
  | nestingTooDeep => rfl
  | _ => nomatch hhead

/-- Whether a diagnostic is about nesting. -/
def Diagnostic.isNesting (d : Diagnostic) : Bool := d.fault = .nestingTooDeep

/-- Nesting has been reported once if it is marked, and not at all if it is not. -/
def ParserState.NestingCounted (s : ParserState) : Prop :=
  s.reported.countP Diagnostic.isNesting = s.tooDeep.toNat

theorem Parser.invariant_nestingCounted : Invariant ParserState.NestingCounted where
  advance h := h
  report {s fault} hfault h := by
    simpa [ParserState.NestingCounted, ParserState.report, Diagnostic.isNesting, hfault] using h
  reportNesting {s} h := by
    unfold ParserState.reportNesting
    split
    · exact h
    next hdeep =>
      rw [Bool.not_eq_true] at hdeep
      rw [ParserState.NestingCounted, hdeep] at h
      simp only [ParserState.NestingCounted, ParserState.report, List.countP_cons, h]
      rfl
  level _ h := h

/-- The parser reports nesting once at most. -/
theorem countP_parseTokens (text : Bytes) (read : Tokens) :
    (parseTokens text read).2.countP Diagnostic.isNesting ≤ 1 := by
  have hcounted : (runQuery text read).2.NestingCounted :=
    (composed_reachIn _ _).keeps invariant_nestingCounted (initial text read) rfl
  rw [parseTokens]
  simp only [List.countP_reverse]
  rw [hcounted]
  exact Bool.toNat_le _

/-- What is wrong with tokens is not their nesting. -/
theorem Tokens.fault_ne_nesting {skip : Nat} {comment : Bool} {pos : Position} {tokens : List Token}
    {diagnostics : List Diagnostic} {text : Bytes} {r : Tokens}
    (h : readFrom skip comment pos tokens diagnostics text = .ok r)
    (hfound : ∀ d ∈ diagnostics, d.isNesting = false) : ∀ d ∈ r.diagnostics, d.isNesting = false := by
  fun_induction readFrom skip comment pos tokens diagnostics text
  case case1 => cases h; simpa using hfound
  case case2 ih | case3 ih | case4 ih | case5 ih => exact ih h hfound
  case case6 => cases h
  case case7 found ih =>
    refine ih h fun d hd => ?_
    rcases List.mem_append.1 hd with hd | hd
    · obtain ⟨fault, -, rfl⟩ := List.mem_map.1 hd
      cases fault <;> rfl
    · exact hfound d hd

/-! ### Names in parentheses -/

/-- The name of a table in a number of parentheses. -/
def nestedName (n : Nat) : Bytes :=
  List.replicate n (byteOf '(') ++ (bytes "T" ++ List.replicate n (byteOf ')'))

theorem nestedName_succ (n : Nat) : nestedName (n + 1) = bytes "(" ++ (nestedName n ++ bytes ")") := by
  rw [nestedName, List.replicate_succ, List.replicate_succ', nestedName]
  simp only [List.append_assoc, List.cons_append]
  rfl

/-- The tokens of a name in parentheses, of which the first stands at a place and those that close
    it stand anywhere. -/
inductive Parens : Nat → Position → List Token → Prop where
  | table (p : Position) : Parens 0 p [.table p]
  | paren {n : Nat} {p : Position} {ts : List Token} (q : Position)
      (h : Parens n (p.advance (bytes "(")) ts) : Parens (n + 1) p (.opening p :: (ts ++ [.closing q]))

namespace Parens

variable {n : Nat} {p : Position} {ts : List Token}

theorem readFrom (n : Nat) (pos : Position) (tokens : List Token) (rest : Bytes)
    (hrest : rest = [] ∨ ∃ more, rest = bytes ")" ++ more) : ∃ ts after, Parens n pos ts ∧
      Tokens.readFrom 0 false pos tokens [] (nestedName n ++ rest) =
        Tokens.readFrom 0 false after (ts.reverse ++ tokens) [] rest := by
  induction n generalizing pos tokens rest with
  | zero =>
    obtain ⟨after, hread⟩ := Searches.readFrom_table pos tokens rest hrest
    exact ⟨_, after, .table pos, hread⟩
  | succ n ih =>
    obtain ⟨ts, after, hts, hinner⟩ := ih (pos.advance (bytes "(")) (.opening pos :: tokens)
      (bytes ")" ++ rest) (.inr ⟨rest, rfl⟩)
    obtain ⟨q, after', hclosing⟩ :=
      Searches.readFrom_closing after (ts.reverse ++ .opening pos :: tokens) rest
    refine ⟨_, after', .paren q hts, ?_⟩
    have hopening : Tokens.readFrom 0 false pos tokens [] (nestedName (n + 1) ++ rest) =
        Tokens.readFrom 0 false (pos.advance (bytes "(")) (.opening pos :: tokens) []
          (nestedName n ++ (bytes ")" ++ rest)) := by
      rw [nestedName_succ, List.append_assoc, List.append_assoc]
      rfl
    rw [hopening, hinner, hclosing]
    simp

theorem tokenize (n : Nat) : ∃ ts after, Parens n .start ts ∧
    KustoFacts.tokenize (nestedName n) = .ok ⟨ts, .endAt after, []⟩ := by
  obtain ⟨ts, after, hts, hread⟩ := readFrom n .start [] [] (.inl rfl)
  refine ⟨ts, after, hts, ?_⟩
  rw [List.append_nil] at hread
  rw [KustoFacts.tokenize, hread, Tokens.readFrom]
  simp

theorem length (h : Parens n p ts) : ts.length = 2 * n + 1 := by
  induction h with
  | table p => rfl
  | paren q h ih =>
    simp only [List.length_cons, List.length_append, List.length_nil, ih]
    omega

/-- No token of a name in parentheses ends a statement. -/
theorem kind_of_mem (h : Parens n p ts) :
    ∀ t ∈ ts, t.kind ∈ [TokenKind.leftParen, .word, .rightParen] := by
  induction h with
  | table p => exact List.forall_mem_singleton.2 (by simp [Token.table])
  | paren q h ih =>
    refine List.forall_mem_cons.2 ⟨by simp [Token.opening], fun t ht => ?_⟩
    rcases List.mem_append.1 ht with ht | ht
    · exact ih t ht
    · rw [List.mem_singleton.1 ht]
      simp [Token.closing]

end Parens

/-! ### Reading an operand

Where nothing goes on with an operand, an item in parentheses and a statement are read just as the
operand is, whether it is given up or not. -/

namespace Parser

variable {α : Type} {g : Grammar} {s : ParserState}

/-- A step that keeps what the step before it returns, and changes nothing. -/
theorem run_bind_same {p : Parser α} {k : α → Parser α}
    (h : ∀ a t, p.run s = (some a, t) → (k a).run t = (some a, t)) : (p >>= k).run s = p.run s := by
  rw [run_bind]
  rcases hrun : p.run s with ⟨_ | a, t⟩
  · rfl
  · exact h a t hrun

/-- What is read is followed by nothing that goes on with it. -/
def Last (p : Parser α) (s : ParserState) : Prop :=
  Leads p s fun _ t => t.current.kind ∈ [TokenKind.rightParen, .comma, .endOfInput]

/-- After the last token of an expression nothing of another kind stands. -/
theorem Last.kind_ne {p : Parser α} {a : α} {t : ParserState} (h : Last p s)
    (hrun : p.run s = (some a, t)) {kind : TokenKind}
    (hkind : kind ∈ [TokenKind.string, .leftParen, .leftBracket, .dot, .assign, .pipe]) :
    t.current.kind ≠ kind := by
  have hfollows : Expr.Follows [] t.current := .of_ends (h a t hrun)
  exact hfollows.kind_ne hkind

/-- A step that gives up, or after which an expression ends. -/
theorem Last.of_run {p : Parser α} {r : Option α} {u : ParserState} (h : p.run s = (r, u))
    (hlast : r = none ∨ u.current.kind ∈ [TokenKind.rightParen, .comma, .endOfInput]) : Last p s := by
  intro a t hrun
  rw [h] at hrun
  obtain ⟨rfl, rfl⟩ := Prod.mk.inj hrun
  exact hlast.resolve_left nofun

theorem Last.of_eq {p q : Parser α} (h : Last p s) (hrun : q.run s = p.run s) : Last q s :=
  fun a t ht => h a t (hrun ▸ ht)

variable (hbound : 0 < g.bound)
include hbound

theorem run_expression_last (h : Last (g.reach .unary) s) :
    (expression g).run s = (g.reach .unary).run s := by
  rw [expression, binary, run_current_bind]
  refine run_bind_same fun n t hrun => Expr.loop_done hbound ?_
  exact Expr.run_binaryRound_done (Expr.infixLevel_of_ends (h n t hrun)).le

theorem run_selected_last (h : Last (primary g) s) : (selected g).run s = (primary g).run s := by
  rw [selected, run_current_bind]
  refine run_bind_same fun n t hrun => Expr.loop_done hbound ?_
  exact run_postfixRound (h.kind_ne hrun (by decide)) (h.kind_ne hrun (by decide))

theorem run_pipes_last {p : Parser Node} (first : Token) (h : Last p s) :
    (p >>= pipes g first).run s = p.run s :=
  run_bind_same fun _ _ hrun => loop_done hbound (run_pipeRound (h.kind_ne hrun (by decide)))

theorem run_namedOrExpression_last (h : Last (g.reach .unary) s) :
    (namedOrExpression g).run s = (g.reach .unary).run s := by
  have hexpression := run_expression_last hbound h
  rw [namedOrExpression, run_current_bind, ← hexpression]
  refine run_bind_same fun n t hrun => ?_
  rw [run_current_bind, if_pos ((h.of_eq hexpression).kind_ne hrun (by decide))]
  rfl

/-- An item that begins with no operator. -/
theorem run_parenItem_last (hsubquery : startsSubquery.run s = (some false, s))
    (hleading : startsLeading s.current s.next = false) (h : Last (g.reach .unary) s) :
    (parenItem g).run s = (g.reach .unary).run s := by
  have hnamed := run_namedOrExpression_last hbound h
  rw [parenItem, run_bind_some hsubquery, if_neg Bool.false_ne_true, run_current_bind,
    run_peek_bind, hleading, ← hnamed]
  exact run_pipes_last hbound s.current (h.of_eq hnamed)

/-- An expression with its pipes that begins with no operator. -/
theorem run_pipeExpression_last (hleading : startsLeading s.current s.next = false)
    (h : Last (g.reach .unary) s) : (pipeExpression g).run s = (g.reach .unary).run s := by
  have hexpression := run_expression_last hbound h
  rw [pipeExpression, run_current_bind, run_peek_bind, hleading, ← hexpression]
  exact run_pipes_last hbound s.current (h.of_eq hexpression)

end Parser

/-! ### How deep they are read -/

/-- Nesting is reported where the first token beyond the limit stands, which has one byte here. -/
def Diagnostic.nestingAt (p : Position) : Diagnostic := ⟨p, p.offset + 1, .nestingTooDeep⟩

theorem ParserState.reportNesting_reportNesting (s : ParserState) :
    s.reportNesting.reportNesting = s.reportNesting := by
  by_cases h : s.tooDeep = true <;> simp [reportNesting, h]

/-- Beyond the limit an operand is given up where it begins. -/
theorem Parser.run_nested_beyond {α : Type} {inside : Parser α} {s : ParserState}
    (h : maxNesting ≤ s.depth) : (nested inside fail).run s = (none, s.reportNesting) := by
  simp only [nested, if_neg (Nat.not_le.2 (Nat.lt_succ_of_le h)), fail,
    ParserState.reportNesting_reportNesting]
  obtain ⟨source, tokens, ending, prevEnd, depth, tooDeep, reported⟩ := s
  cases tooDeep <;> rfl

namespace Parens

variable {s : ParserState} {n steps prev : Nat} {p : Position} {ts tail inner : List Token}

/-- The first token is one byte long. -/
theorem exists_first (hts : Parens n p ts) :
    ∃ t rest, ts = t :: rest ∧ t.pos = p ∧ t.stop = p.offset + 1 := by
  cases hts <;> exact ⟨_, _, rfl, rfl, rfl⟩

theorem startsSubquery (hts : Parens n p ts) (s : ParserState) (prev : Nat) (tail : List Token) :
    Parser.startsSubquery.run (s.upTo prev (ts ++ tail)) = (some false, s.upTo prev (ts ++ tail)) := by
  cases hts with
  | table => rfl
  | paren q h => cases h <;> rfl

theorem startsLeading (hts : Parens n p ts) (s : ParserState) (prev : Nat) (tail : List Token) :
    Parser.startsLeading (s.upTo prev (ts ++ tail)).current (s.upTo prev (ts ++ tail)).next = false := by
  cases hts <;> rfl

/-- A parenthesis is opened one level deeper than where its operand is asked for. -/
theorem run_unary_opening {r : Option Node} {u : ParserState} (hsteps : 0 < steps)
    (hdepth : s.depth < maxNesting)
    (h : (parenthesized (.within steps)).run ((deeper s).upTo prev (.opening p :: inner)) = (r, u))
    (hlast : r = none ∨ u.current.kind ∈ [TokenKind.rightParen, .comma, .endOfInput]) :
    (Grammar.reachIn (steps + 1) .unary).run (s.upTo prev (.opening p :: inner)) =
      (r, { u with depth := u.depth - 1 }) := by
  let t := (deeper s).upTo prev (.opening p :: inner)
  have hprimary : (primary (.within steps)).run t = (r, u) := h
  have hselected : (selected (.within steps)).run t = (r, u) :=
    (run_selected_last hsteps (.of_run hprimary hlast)).trans hprimary
  have hsigned : (signed ⟨steps, Grammar.reachIn steps⟩).run
      (deeper (s.upTo prev (.opening p :: inner))) = (r, u) := hselected
  have hdepth : (s.upTo prev (.opening p :: inner)).depth + 1 ≤ maxNesting := hdepth
  rw [Grammar.reachIn, Grammar.produce, run_nested hdepth, hsigned]

/-- What is read as an operand is read as an item in parentheses. -/
theorem run_parenItem {r : Option Node} {u : ParserState} (hts : Parens n p ts) (hsteps : 0 < steps)
    (h : (Grammar.reachIn steps .unary).run (s.upTo prev (ts ++ tail)) = (r, u))
    (hlast : r = none ∨ u.current.kind ∈ [TokenKind.rightParen, .comma, .endOfInput]) :
    (parenItem (.within steps)).run (s.upTo prev (ts ++ tail)) = (r, u) :=
  (run_parenItem_last hsteps (hts.startsSubquery s prev tail) (hts.startsLeading s prev tail)
    (.of_run h hlast)).trans h

theorem kind_ne_rightParen (hts : Parens n p ts) (s : ParserState) (prev : Nat) (tail : List Token) :
    (s.upTo prev (ts ++ tail)).current.kind ≠ .rightParen := by
  cases hts <;> nofun

/-- Within the limit a name in parentheses is read as a whole. -/
theorem run_unary_within (hts : Parens n p ts) (hdepth : s.depth + n < maxNesting)
    (hsteps : n + 1 < steps)
    (htail : (follow s tail).kind ∈ [TokenKind.rightParen, .comma, .endOfInput]) (prev : Nat) :
    ∃ node e, (Grammar.reachIn steps .unary).run (s.upTo prev (ts ++ tail)) =
      (some node, s.upTo e tail) := by
  induction hts generalizing s steps prev tail with
  | table p =>
    let name : Expr := .name ⟨byteOf 'T', [], by decide, by decide, by decide⟩
    have halone : name.Alone := (name.reads trivial).1 (by decide)
    obtain ⟨node, e, hrun, -⟩ := halone s p tail steps ⟨hdepth, hsteps⟩ (.of_ends htail) prev
    exact ⟨node, e, hrun⟩
  | @paren n p ts q h ih =>
    obtain ⟨steps, rfl⟩ : ∃ k, steps = k + 1 := ⟨steps - 1, by omega⟩
    have hpos : 0 < steps := by omega
    have hroom : (deeper s).depth + n < maxNesting := by
      simp only [deeper]
      omega
    obtain ⟨node, e, hunary⟩ := @ih (deeper s) steps (.closing q :: tail) hroom (by omega)
      (by simp [follow, Token.closing]) (Token.opening p).stop
    have hitem := h.run_parenItem hpos hunary (.inr List.mem_cons_self)
    obtain ⟨span, hparens⟩ :=
      Searches.run_parenthesized (show 0 < (Grammar.within steps).bound from hpos) prev p q
        (h.kind_ne_rightParen _ _ _) hitem
    have hrun := run_unary_opening hpos (by omega) hparens (.inr htail)
    rw [List.cons_append, List.append_assoc]
    exact ⟨_, _, hrun⟩

/-- An operand that stands beyond the limit is reported. -/
theorem run_unary_deep (hts : Parens n p ts) (hdepth : maxNesting ≤ s.depth) (hsteps : 0 < steps)
    (hdeep : s.tooDeep = false) (prev : Nat) (tail : List Token) :
    ∃ u, (Grammar.reachIn steps .unary).run (s.upTo prev (ts ++ tail)) = (none, u) ∧
      u.reported = .nestingAt p :: s.reported := by
  obtain ⟨steps, rfl⟩ := Nat.exists_eq_succ_of_ne_zero (Nat.ne_of_gt hsteps)
  obtain ⟨t, rest, rfl, rfl, hstop⟩ := hts.exists_first
  have hdepth : maxNesting ≤ (s.upTo prev (t :: rest ++ tail)).depth := hdepth
  refine ⟨_, run_nested_beyond hdepth, ?_⟩
  have hdeep : (s.upTo prev (t :: rest ++ tail)).tooDeep ≠ true := by
    rw [show (s.upTo prev (t :: rest ++ tail)).tooDeep = s.tooDeep from rfl, hdeep]
    nofun
  rw [ParserState.reportNesting, if_neg hdeep]
  change ⟨t.pos, max t.pos.offset t.stop, .nestingTooDeep⟩ :: s.reported = _
  rw [hstop, Nat.max_eq_right (Nat.le_succ _), Diagnostic.nestingAt]

/-- What is given up in parentheses gives up the parentheses. -/
theorem run_parenthesized_none {g : Grammar} {u : ParserState} (hbound : 0 < g.bound)
    (hfirst : (s.upTo (Token.opening p).stop inner).current.kind ≠ .rightParen)
    (hitem : (parenItem g).run (s.upTo (Token.opening p).stop inner) = (none, u)) (prev : Nat) :
    (parenthesized g).run (s.upTo prev (.opening p :: inner)) = (none, u) := by
  obtain ⟨bound, hbound⟩ := Nat.exists_eq_succ_of_ne_zero (Nat.ne_of_gt hbound)
  have hitems : (itemsUntil g.bound .rightParen (parenItem g)).run
      (s.upTo (Token.opening p).stop inner) = (none, u) := by
    change rounds _ g.bound [] _ = _
    rw [hbound, rounds_succ, untilRound, run_sees_bind, decide_eq_false hfirst,
      if_neg Bool.false_ne_true, commaRound, run_bind, hitem]
  rw [parenthesized, run_current_bind, run_advance_bind, ParserState.advance_upTo, run_bind, hitems]

/-- Where parentheses go beyond the limit, nesting is reported at the first token that stands
    there. -/
theorem run_unary_beyond (hts : Parens n p ts) (hdepth : maxNesting ≤ s.depth + n)
    (hsteps : n < steps) (hdeep : s.tooDeep = false) (prev : Nat) (tail : List Token) :
    ∃ u, (Grammar.reachIn steps .unary).run (s.upTo prev (ts ++ tail)) = (none, u) ∧
      u.reported =
        .nestingAt (p.advance (List.replicate (maxNesting - s.depth) (byteOf '('))) :: s.reported := by
  induction hts generalizing s steps prev tail with
  | table p =>
    have hdepth : maxNesting ≤ s.depth := hdepth
    rw [Nat.sub_eq_zero_of_le hdepth]
    exact (table p).run_unary_deep hdepth hsteps hdeep prev tail
  | @paren n p ts q h ih =>
    by_cases hlimit : maxNesting ≤ s.depth
    · rw [Nat.sub_eq_zero_of_le hlimit]
      exact (paren q h).run_unary_deep hlimit (by omega) hdeep prev tail
    obtain ⟨steps, rfl⟩ : ∃ k, steps = k + 1 := ⟨steps - 1, by omega⟩
    have hpos : 0 < steps := by omega
    have hbeyond : maxNesting ≤ (deeper s).depth + n := by
      simp only [deeper]
      omega
    obtain ⟨u, hunary, hreported⟩ := @ih (deeper s) steps hbeyond (by omega) hdeep
      (Token.opening p).stop (.closing q :: tail)
    have hitem := h.run_parenItem hpos hunary (.inl rfl)
    have hparens := run_parenthesized_none (show 0 < (Grammar.within steps).bound from hpos)
      (h.kind_ne_rightParen _ _ _) hitem prev
    have hrun := run_unary_opening hpos (by omega) hparens (.inl rfl)
    rw [List.cons_append, List.append_assoc]
    refine ⟨_, hrun, hreported.trans ?_⟩
    have hlevels : maxNesting - s.depth = (maxNesting - (deeper s).depth) + 1 := by
      simp only [deeper]
      omega
    rw [hlevels, List.replicate_succ]
    rfl

/-- A name in parentheses is a statement. -/
theorem run_statement (hts : Parens n p ts) (s : ParserState) (prev : Nat) (g : Grammar) :
    (statement g).run (s.upTo prev ts) =
      (expressionStatement g (s.upTo prev ts).current).run (s.upTo prev ts) := by
  cases hts <;> rfl

/-- What is read as an operand is read as an expression with its pipes. -/
theorem run_pipeExpression {r : Option Node} {u : ParserState} (hts : Parens n p ts)
    (hsteps : 0 < steps)
    (h : (Grammar.reachIn steps .unary).run (s.upTo prev (ts ++ tail)) = (r, u))
    (hlast : r = none ∨ u.current.kind ∈ [TokenKind.rightParen, .comma, .endOfInput]) :
    (pipeExpression (.within steps)).run (s.upTo prev (ts ++ tail)) = (r, u) :=
  (run_pipeExpression_last hsteps (hts.startsLeading s prev tail) (.of_run h hlast)).trans h

end Parens

/-! ### What is skipped -/

namespace Parser

variable {α β : Type} {s t : ParserState}

theorem reported_rounds {step : α → Parser (Round α β)}
    (h : ∀ a s, ((step a).run s).2.reported = s.reported) {b : β} (bound : Nat) (a : α)
    (hrun : rounds step bound a s = (some b, t)) : t.reported = s.reported := by
  induction bound generalizing a s with
  | zero => cases hrun
  | succ bound ih =>
    rw [rounds_succ] at hrun
    have hstep := h a s
    rcases hround : (step a).run s with ⟨_ | a' | b', u⟩ <;> rw [hround] at hrun hstep
    · cases hrun
    · exact (ih a' hrun).trans hstep
    · cases hrun
      exact hstep

/-- Nothing is reported about what is skipped. -/
theorem reported_skipRound (stop : TokenKind) (depth : Int) (s : ParserState) :
    ((skipRound stop depth).run s).2.reported = s.reported := by
  rw [skipRound, run_current_bind]
  split
  · rfl
  · split <;> rfl
  · rfl
  · split <;> rfl
  · rfl

/-- After a fault what is left of a statement is skipped. -/
theorem run_afterStatement_fault {text : Bytes} {read : Tokens} {g : Grammar} {before : Nat}
    (stop : TokenKind) (found : List Node) (hs : s.Along text read) (hbound : s.tokens.length < g.bound)
    (hfault : before < s.reported.length) :
    ∃ t, (afterStatement g stop before found).run s = (some (.again found), t) ∧
      s.Forward t ∧ Ends stop t ∧ t.reported = s.reported := by
  obtain ⟨a, t, hskip⟩ : Succeeds (skipStatement g stop) s := skipStatement_succeeds hs hbound
  have hforward := (skipStatement g stop).forward s
  rw [hskip] at hforward
  refine ⟨t, ?_, hforward, leads_skipStatement hs a t hskip,
    reported_rounds (reported_skipRound stop) g.bound 0 hskip⟩
  rw [afterStatement, run_state_bind, if_pos hfault, skipRest, run_bind_some hskip]
  rfl

end Parser

/-! ### Their texts -/

namespace Parens

variable {n : Nat} {p : Position} {ts : List Token} {text : Bytes} {after : Position}

theorem ne_nil (hts : Parens n p ts) : ts ≠ [] := by cases hts <;> nofun

theorem endsStatement (hts : Parens n p ts) (s : ParserState) (prev : Nat) :
    Parser.endsStatement .endOfInput (s.upTo prev ts).current = false := by
  cases hts <;> rfl

/-- Where a statement ends, none of the tokens is left. -/
theorem current_of_ends {t : ParserState} (hts : Parens n p ts) (htokens : t.tokens <:+ ts)
    (hending : t.ending.kind = .endOfInput) (hends : Ends .endOfInput t) :
    t.current.kind = .endOfInput := by
  rcases List.mem_cons.1 t.current_mem with hcurrent | hcurrent
  · rw [hcurrent, hending]
  · have hkind := hts.kind_of_mem _ (htokens.subset hcurrent)
    simp only [Ends, Parser.endsStatement, Bool.or_eq_true, decide_eq_true_eq] at hends
    rcases hends with (hsemicolon | hend) | hend
    · rw [hsemicolon] at hkind
      exact absurd hkind (by decide)
    · exact hend
    · exact hend

/-- Within the limit names in parentheses are a statement that is read without a report. -/
theorem reads (hts : Parens n .start ts) (hn : n + 1 < maxNesting) (text : Bytes)
    (after : Position) : ∃ node, Reads text ⟨ts, .endAt after, []⟩ [node] := by
  let s := start text ⟨ts, .endAt after, []⟩
  have hlength := hts.length
  have hend : (follow s []).kind ∈ [TokenKind.rightParen, .comma, .endOfInput] := by
    simp [follow, s, start, deeper, initial, Token.endAt]
  have hdepth : s.depth + n < maxNesting := (Nat.add_comm 1 n).trans_lt hn
  have hsteps : n + 1 < 2 * ts.length + 1 := by omega
  obtain ⟨node, e, hunary⟩ := hts.run_unary_within hdepth hsteps hend 0
  have hpipes := hts.run_pipeExpression (Nat.succ_pos _) hunary (.inr hend)
  rw [List.append_nil] at hpipes
  obtain ⟨n, hstatement⟩ : ∃ n, (statement (.forTokens ts.length)).run (s.upTo 0 ts) =
      (some n, s.upTo e []) := by
    rw [hts.run_statement, expressionStatement]
    exact ⟨_, run_bind_some hpipes⟩
  have hstatements : statementsOf text ⟨ts, .endAt after, []⟩ = (some [n], s.upTo e []) :=
    statementsOf_statement hts.ne_nil (hts.endsStatement s 0) hstatement ⟨rfl, rfl⟩ rfl
  exact ⟨n, by rw [hstatements], by rw [hstatements]; exact ⟨rfl, rfl⟩⟩

/-- Beyond the limit one fault is reported, whatever else would be read. -/
theorem reported (hts : Parens n .start ts) (hn : maxNesting ≤ n + 1)
    (hread : KustoFacts.tokenize text = .ok ⟨ts, .endAt after, []⟩) :
    (statementsOf text ⟨ts, .endAt after, []⟩).2.reported =
      [.nestingAt (Position.start.advance (List.replicate (maxNesting - 1) (byteOf '(')))] := by
  let s := start text ⟨ts, .endAt after, []⟩
  let g := Grammar.forTokens ts.length
  have hlength := hts.length
  have hdepth : maxNesting ≤ s.depth + n := hn.trans_eq (Nat.add_comm n 1)
  have hsteps : n < 2 * ts.length + 1 := by omega
  obtain ⟨u, hunary, hreported⟩ := hts.run_unary_beyond hdepth hsteps rfl 0 []
  have hpipes := hts.run_pipeExpression (Nat.succ_pos _) hunary (.inl rfl)
  rw [List.append_nil] at hpipes
  have hstatement : (statement g).run s = (none, u) := by
    refine (hts.run_statement s 0 g).trans ?_
    rw [expressionStatement, run_bind,
      show (pipeExpression g).run (s.upTo 0 ts) = (none, u) from hpipes]
  have hforward := (statement g).forward s
  rw [hstatement] at hforward
  have hstart : s.Along text ⟨ts, .endAt after, []⟩ := { along_initial hread with }
  have hu : u.Along text ⟨ts, .endAt after, []⟩ := (hstart.moves hforward.moves).1
  have hroom : u.tokens.length < g.bound := by
    have hfewer : u.tokens.length ≤ ts.length := hforward.tokens.length_le
    simp only [g, Grammar.forTokens]
    omega
  have hfault : s.reported.length < u.reported.length := by
    rw [hreported]
    exact Nat.lt_succ_self _
  obtain ⟨t, hafter, hskipped, hends, hsame⟩ :=
    run_afterStatement_fault .endOfInput [] hu hroom hfault
  have hround : (statementRound g .endOfInput []).run s = (some (.again []), t) := by
    have hwithin : ¬Ends .endOfInput s := ne_true_of_eq_false (hts.endsStatement s 0)
    rw [statementRound_within hwithin, hstatement]
    exact hafter
  have hend := hts.current_of_ends (hskipped.tokens.trans hforward.tokens)
    (by rw [hskipped.ending, hforward.ending]; rfl) hends
  obtain ⟨bound, hbound⟩ : ∃ bound, 2 * ts.length + 1 = bound + 1 + 1 :=
    ⟨2 * ts.length - 1, by omega⟩
  rw [statementsOf, hbound, Frame.statements_again hround, Frame.statements_end hend, hsame, hreported]
  rfl

end Parens

theorem Position.advance_replicate (p : Position) (k : Nat) :
    p.advance (List.replicate k (byteOf '(')) = ⟨p.offset + k, p.line, p.column + k⟩ := by
  induction k generalizing p with
  | zero => rfl
  | succ k ih =>
    rw [List.replicate_succ]
    refine (ih (p.step (byteOf '('))).trans ?_
    have hstep : p.step (byteOf '(') = ⟨p.offset + 1, p.line, p.column + 1⟩ := if_neg (by decide)
    rw [hstep]
    simp only [Position.mk.injEq, true_and]
    omega

theorem withoutMark_nestedName (n : Nat) : Parsed.withoutMark (nestedName n) = nestedName n := by
  refine withoutMark_eq ?_
  cases n <;> rfl

/-- Names in parentheses have no faults exactly within the limit, and one fault beyond it. -/
theorem parse_nestedName (catalog : TableNames) (n : Nat) :
    ∃ p, parse catalog (nestedName n) = .ok p ∧ (n ≤ 998 → p.diagnostics = []) ∧
      (999 ≤ n → p.diagnostics = [⟨⟨999, 1, 1000⟩, 1000, .nestingTooDeep⟩]) := by
  obtain ⟨ts, after, hts, hread⟩ := Parens.tokenize n
  have hmark := withoutMark_nestedName n
  have hlimit : maxNesting = 1000 := rfl
  refine ⟨.ofTokens catalog (nestedName n) ⟨ts, .endAt after, []⟩, by rw [parse, hmark, hread]; rfl,
    fun hn => ?_, fun hn => ?_⟩
  · obtain ⟨node, hreads⟩ := hts.reads (by omega) (nestedName n) after
    rw [Parsed.ofTokens, parseTokens_of_reads hreads]
    exact mergeByStart_eq_nil.2 ⟨rfl, rfl⟩
  · have hbeyond : maxNesting ≤ n + 1 := by omega
    have hreported := hts.reported hbeyond hread
    have hparsed : (parseTokens (nestedName n) ⟨ts, .endAt after, []⟩).2 =
        [⟨⟨999, 1, 1000⟩, 1000, .nestingTooDeep⟩] := by
      change (runQuery _ _).2.reported.reverse = _
      rw [(runQuery_eq _ _).2.2.1, hreported, Position.advance_replicate]
      rfl
    change mergeByStart Diagnostic.start [] (parseTokens _ _).2 = _
    rw [hparsed, mergeByStart, List.nil_merge]

/-- No text has more than one fault about nesting. -/
theorem countP_parse {catalog : TableNames} {text : Bytes} {p : Parsed}
    (h : parse catalog text = .ok p) : p.diagnostics.countP Diagnostic.isNesting ≤ 1 := by
  obtain ⟨read, hread, rfl⟩ := parse_ok h
  have hlexed : read.diagnostics.countP Diagnostic.isNesting = 0 :=
    List.countP_eq_zero.2 fun d hd => ne_true_of_eq_false (Tokens.fault_ne_nesting hread nofun d hd)
  have hmerged : (Parsed.ofTokens catalog (Parsed.withoutMark text) read).diagnostics.Perm
      (read.diagnostics ++ (parseTokens (Parsed.withoutMark text) read).2) :=
    List.merge_perm_append _
  rw [hmerged.countP_eq, List.countP_append, hlexed, Nat.zero_add]
  exact countP_parseTokens _ _

/-- The limit is exact: a name in parentheses has no faults up to 998 of them, and with more of them
    one fault, at the 1000th token. Whatever is read, successfully or not, leaves the level it found,
    and no text is told of its nesting more than once. -/
theorem nesting_guarded :
    (∀ (catalog : TableNames) (n : Nat), ∃ p, parse catalog (nestedName n) = .ok p ∧
      (p.diagnostics = [] ↔ n ≤ 998) ∧
      (999 ≤ n → p.diagnostics = [⟨⟨999, 1, 1000⟩, 1000, .nestingTooDeep⟩])) ∧
    Fault.nestingTooDeep.message = bytes "Query nesting exceeds 1000 levels." ∧
    (∀ {α : Type} (q : Parser α) (s : ParserState), (q.run s).2.depth = s.depth) ∧
    ∀ (catalog : TableNames) (text : Bytes) (p : Parsed), parse catalog text = .ok p →
      p.diagnostics.countP (fun d => d.fault.message = Fault.nestingTooDeep.message) ≤ 1 := by
  refine ⟨fun catalog n => ?_, by decide, fun q s => (q.forward s).depth, fun catalog text p h => ?_⟩
  · obtain ⟨p, hparse, hwithin, hbeyond⟩ := parse_nestedName catalog n
    refine ⟨p, hparse, ⟨fun hclean => Nat.not_lt.1 fun hn => ?_, hwithin⟩, hbeyond⟩
    rw [hbeyond hn] at hclean
    cases hclean
  · simp only [Fault.message_eq_nesting]
    exact countP_parse h

theorem nesting_guarded_beyond : ∃ p, parse .empty (nestedName 999) = .ok p ∧
    p.diagnostics = [⟨⟨999, 1, 1000⟩, 1000, .nestingTooDeep⟩] ∧
    p.diagnostics.countP (fun d => d.fault.message = Fault.nestingTooDeep.message) ≤ 1 := by
  obtain ⟨p, hparse, -, hbeyond⟩ := nesting_guarded.1 .empty 999
  exact ⟨p, hparse, hbeyond (Nat.le_refl _), nesting_guarded.2.2.2 .empty _ p hparse⟩

end KustoFacts
