import KustoFacts.Proofs.Query.OperatorPath
import KustoFacts.Proofs.Query.Spelled

/-!
    Searches inside each other. The sources of a search are read at the depth of the search itself,
    so that a search may be the source of another one any number of times: the text
    `find in (find in ( .. T .. ))` is read without a report however many searches there are in it,
    and all of them stand on one way down its tree. -/

namespace KustoFacts

open KustoFacts.Parser

/-- A number of searches, each the source of the one around it, and a table in the middle. -/
def nestedSearches : Nat → Bytes
  | 0 => bytes "T"
  | m + 1 => bytes "find in (" ++ (nestedSearches m ++ bytes ")")

namespace Token

/-- The name of a table. -/
def table : Position → Token := ofText .word (bytes "T")

/-- The keyword of a search. -/
def find : Position → Token := ofText .word (bytes "find")

/-- The word before the sources of a search. -/
def within : Position → Token := ofText .word (bytes "in")

/-- An opening parenthesis. -/
def opening : Position → Token := ofText .leftParen (bytes "(")

/-- A closing parenthesis. -/
def closing : Position → Token := ofText .rightParen (bytes ")")

end Token

/-- The tokens of searches inside each other, wherever they stand. -/
inductive Searches : Nat → List Token → Prop where
  | table (p : Position) : Searches 0 [.table p]
  | search {m : Nat} {ts : List Token} (p p' p'' q : Position) (h : Searches m ts) :
      Searches (m + 1) (.find p :: .within p' :: .opening p'' :: (ts ++ [.closing q]))

namespace Searches

/-! ### The tokens -/

section Lexing

variable (pos : Position) (tokens : List Token) (rest : Bytes)

theorem readFrom_search : ∃ p p' p'' after,
    Tokens.readFrom 0 false pos tokens [] (bytes "find in (" ++ rest) =
      Tokens.readFrom 0 false after (.opening p'' :: .within p' :: .find p :: tokens) [] rest :=
  ⟨pos, pos.advance (bytes "find "), pos.advance (bytes "find in "),
    pos.advance (bytes "find in ("), rfl⟩

theorem readFrom_closing : ∃ q after,
    Tokens.readFrom 0 false pos tokens [] (bytes ")" ++ rest) =
      Tokens.readFrom 0 false after (.closing q :: tokens) [] rest :=
  ⟨pos, pos.advance (bytes ")"), rfl⟩

/-- A name ends before the end of the text and before a parenthesis. -/
theorem readFrom_table (hrest : rest = [] ∨ ∃ more, rest = bytes ")" ++ more) : ∃ after,
    Tokens.readFrom 0 false pos tokens [] (bytes "T" ++ rest) =
      Tokens.readFrom 0 false after (.table pos :: tokens) [] rest := by
  rcases hrest with rfl | ⟨more, rfl⟩
  · exact ⟨pos.advance (bytes "T"), rfl⟩
  · exact ⟨pos.advance (bytes "T"), rfl⟩

end Lexing

theorem readFrom (m : Nat) (pos : Position) (tokens : List Token) (rest : Bytes)
    (hrest : rest = [] ∨ ∃ more, rest = bytes ")" ++ more) :
    ∃ ts after, Searches m ts ∧
      Tokens.readFrom 0 false pos tokens [] (nestedSearches m ++ rest) =
        Tokens.readFrom 0 false after (ts.reverse ++ tokens) [] rest := by
  induction m generalizing pos tokens rest with
  | zero =>
    obtain ⟨after, hread⟩ := readFrom_table pos tokens rest hrest
    exact ⟨_, after, .table pos, hread⟩
  | succ m ih =>
    obtain ⟨p, p', p'', after, hopening⟩ :=
      readFrom_search pos tokens (nestedSearches m ++ (bytes ")" ++ rest))
    obtain ⟨ts, after', hts, hinner⟩ := ih after _ (bytes ")" ++ rest) (.inr ⟨rest, rfl⟩)
    obtain ⟨q, after'', hclosing⟩ := readFrom_closing after' _ rest
    refine ⟨_, after'', .search p p' p'' q hts, ?_⟩
    rw [nestedSearches, List.append_assoc, List.append_assoc, hopening, hinner, hclosing]
    simp

theorem tokenize (m : Nat) : ∃ ts after, Searches m ts ∧
    KustoFacts.tokenize (nestedSearches m) = .ok ⟨ts, .endAt after, []⟩ := by
  obtain ⟨ts, after, hts, hread⟩ := readFrom m .start [] [] (.inl rfl)
  refine ⟨ts, after, hts, ?_⟩
  rw [List.append_nil] at hread
  rw [KustoFacts.tokenize, hread, Tokens.readFrom]
  simp

end Searches

/-! ### Reading them -/

namespace Searches

variable {s : ParserState} {m steps prev e : Nat} {ts tail : List Token} {n : Node} {span : Span}

/-- The node of the table in the middle. -/
def tableNode (p : Position) : Node :=
  .mk .none (.nameReference (bytes "T") .unknown) ⟨p.offset, max p.offset (Token.table p).stop⟩
    (.table p) []

/-- The name of a table, before a closing parenthesis. -/
theorem run_parenItem_table (hdepth : s.depth + 1 ≤ maxNesting) (p q : Position) :
    (parenItem ⟨steps + 2, Grammar.reachIn (steps + 2)⟩).run
      (s.upTo prev (.table p :: .closing q :: tail)) =
        (some (tableNode p), s.upTo (Token.table p).stop (.closing q :: tail)) := by
  have hunary : (Grammar.reachIn (steps + 2) .unary).run
      (s.upTo prev (.table p :: .closing q :: tail)) =
        (some (tableNode p), s.upTo (Token.table p).stop (.closing q :: tail)) := by
    have hdepth : (s.upTo prev (.table p :: .closing q :: tail)).depth + 1 ≤ maxNesting := hdepth
    rw [Grammar.reachIn, Grammar.produce, run_nested hdepth]
    rfl
  have hexpression : (expression ⟨steps + 2, Grammar.reachIn (steps + 2)⟩).run
      (s.upTo prev (.table p :: .closing q :: tail)) =
        (some (tableNode p), s.upTo (Token.table p).stop (.closing q :: tail)) := by
    rw [expression, binary, run_current_bind, run_bind_some hunary]
    rfl
  have hnamed : (namedOrExpression ⟨steps + 2, Grammar.reachIn (steps + 2)⟩).run
      (s.upTo prev (.table p :: .closing q :: tail)) =
        (some (tableNode p), s.upTo (Token.table p).stop (.closing q :: tail)) := by
    rw [namedOrExpression, run_current_bind, run_bind_some hexpression]
    rfl
  -- neither a subquery nor an operator begins here
  change (namedOrExpression _ >>= pipes _ _).run _ = _
  rw [run_bind_some hnamed]
  rfl

/-- One item in parentheses. -/
theorem run_parenthesized {g : Grammar} (hbound : 0 < g.bound) (prev : Nat) (p q : Position)
    {inner : List Token}
    (hfirst : (s.upTo (Token.opening p).stop inner).current.kind ≠ .rightParen)
    (hitem : (parenItem g).run (s.upTo (Token.opening p).stop inner) =
      (some n, s.upTo e (.closing q :: tail))) :
    ∃ span, (parenthesized g).run (s.upTo prev (.opening p :: inner)) =
      (some (.mk .none .parenthesized span (.opening p) [n.inSlot .expression]),
        s.upTo (Token.closing q).stop tail) := by
  obtain ⟨bound, hbound⟩ := Nat.exists_eq_succ_of_ne_zero (Nat.ne_of_gt hbound)
  have hitems : (itemsUntil g.bound .rightParen (parenItem g)).run
      (s.upTo (Token.opening p).stop inner) = (some [n], s.upTo e (.closing q :: tail)) := by
    change rounds _ g.bound [] _ = _
    rw [hbound, rounds_succ, untilRound, run_sees_bind, decide_eq_false hfirst,
      if_neg Bool.false_ne_true, commaRound, run_bind_some hitem]
    rfl
  refine ⟨(s.upTo (Token.closing q).stop tail).spanFrom (.opening p), ?_⟩
  rw [parenthesized, run_current_bind, run_advance_bind, ParserState.advance_upTo,
    run_bind_some hitems]
  rfl

/-- A search of which the sources are read, where its body has ended. -/
theorem run_operator {g : Grammar} (hbound : 0 < g.bound) {first : Token} {inner : List Token}
    (prev : Nat) (p p' p'' : Position) (hends : endsBody (s.upTo e tail).current = true)
    (hsources : (g.reach .sources).run (s.upTo (Token.within p').stop (.opening p'' :: inner)) =
      (some (.mk .none .parenthesized span first [n]), s.upTo e tail)) :
    ∃ span, (operator g).run (s.upTo prev (.find p :: .within p' :: .opening p'' :: inner)) =
      (some (.mk .none (.operator (bytes "find")) span (.find p) [n.inSlot .operand]),
        s.upTo e tail) := by
  obtain ⟨bound, hbound⟩ := Nat.exists_eq_succ_of_ne_zero (Nat.ne_of_gt hbound)
  have hparams : (params g (bytes "find")).run
      (s.upTo (Token.find p).stop (.within p' :: .opening p'' :: inner)) =
        (some [], s.upTo (Token.find p).stop (.within p' :: .opening p'' :: inner)) := by
    rw [params, hbound]
    rfl
  have hgiven : (given g (bytes "find")).run
      (s.upTo (Token.find p).stop (.within p' :: .opening p'' :: inner)) =
        (some [], s.upTo (Token.find p).stop (.within p' :: .opening p'' :: inner)) := rfl
  have hsearched : (searched g (bytes "find")).run
      (s.upTo (Token.find p).stop (.within p' :: .opening p'' :: inner)) =
        (some [n], s.upTo e tail) := by
    change (g.reach .sources >>= fun sources => pure (sourceList sources)).run
      (s.upTo (Token.within p').stop (.opening p'' :: inner)) = _
    rw [run_bind_some hsources]
    rfl
  have hbody : (body g []).run (s.upTo e tail) = (some [], s.upTo e tail) := by
    rw [body, loop]
    simp only [hbound, rounds_succ, bodyRound, run_current_bind, if_pos hends]
    rfl
  refine ⟨(s.upTo e tail).spanFrom (.find p), ?_⟩
  rw [operator, run_current_bind, run_advance_bind, ParserState.current_upTo,
    ParserState.advance_upTo, show (Token.find p).text = bytes "find" from rfl,
    run_bind_some hparams, run_bind_some hgiven, run_bind_some hsearched]
  rw [show ([] : List Node).reverse = [] from rfl, run_bind_some hbody]
  rfl

/-- The keyword and the word after it begin an operator that needs no input. -/
theorem startsLeading_upTo (prev : Nat) (p p' : Position) (ts : List Token) :
    startsLeading (s.upTo prev (.find p :: .within p' :: ts)).current
      (s.upTo prev (.find p :: .within p' :: ts)).next = true := rfl

theorem run_leading (g : Grammar) (prev : Nat) (p : Position) (ts : List Token) :
    (leading g).run (s.upTo prev (.find p :: ts)) = (operator g).run (s.upTo prev (.find p :: ts)) :=
  rfl

/-- One more search around what is read as one item. -/
theorem run_search (hts : Searches m ts) (prev : Nat) (p p' p'' q : Position) (hsteps : 0 < steps)
    (hends : endsBody (s.upTo (Token.closing q).stop tail).current = true)
    (hitem : ∃ n e, (parenItem ⟨steps, Grammar.reachIn steps⟩).run
      (s.upTo (Token.opening p'').stop (ts ++ .closing q :: tail)) =
        (some n, s.upTo e (.closing q :: tail)) ∧ n.Nests m) :
    ∃ n, (operator ⟨steps + 1, Grammar.reachIn (steps + 1)⟩).run
      (s.upTo prev (.find p :: .within p' :: .opening p'' :: (ts ++ .closing q :: tail))) =
        (some n, s.upTo (Token.closing q).stop tail) ∧ n.Nests (m + 1) := by
  obtain ⟨n, e, hitem, hn⟩ := hitem
  obtain ⟨span, hsources⟩ := run_parenthesized hsteps (Token.within p').stop p'' q
    (by cases hts <;> nofun) hitem
  obtain ⟨span', hoperator⟩ := run_operator (g := ⟨steps + 1, Grammar.reachIn (steps + 1)⟩)
    (Nat.succ_pos steps) prev p p' p'' hends hsources
  exact ⟨_, hoperator, .operator rfl List.mem_cons_self ((hn.inSlot _).inSlot _)⟩

/-- Searches inside each other are read as one item, however many there are. -/
theorem run_parenItem (hts : Searches m ts) (hdepth : s.depth + 1 ≤ maxNesting)
    (hsteps : m + 2 ≤ steps) (prev : Nat) (q : Position) (tail : List Token) :
    ∃ n e, (parenItem ⟨steps, Grammar.reachIn steps⟩).run (s.upTo prev (ts ++ .closing q :: tail)) =
      (some n, s.upTo e (.closing q :: tail)) ∧ n.Nests m := by
  induction hts generalizing steps prev q tail with
  | table p =>
    obtain ⟨steps, rfl⟩ := Nat.exists_eq_add_of_le' hsteps
    exact ⟨_, _, run_parenItem_table hdepth p q, .zero _⟩
  | @search m ts p p' p'' q' hts ih =>
    obtain ⟨steps, rfl⟩ : ∃ k, steps = k + 1 := ⟨steps - 1, by omega⟩
    have hfewer : m + 2 ≤ steps := by omega
    obtain ⟨n, hoperator, hn⟩ := run_search hts prev p p' p'' q' (Nat.zero_lt_of_lt hfewer) rfl
      (ih hfewer _ q' (.closing q :: tail))
    refine ⟨n, (Token.closing q').stop, ?_, hn⟩
    simp only [List.cons_append, List.append_assoc, List.nil_append]
    rw [← run_leading] at hoperator
    have hstarts : startsSubquery.run (s.upTo prev (.find p :: .within p' :: .opening p'' ::
        (ts ++ .closing q' :: .closing q :: tail))) = (some false, _) := rfl
    rw [parenItem, run_bind_some hstarts, if_neg Bool.false_ne_true, run_current_bind, run_peek_bind]
    dsimp only
    rw [if_pos (startsLeading_upTo _ _ _ _), run_bind_some hoperator]
    rfl

/-- They are read as the statement of a text. -/
theorem run_statement (hts : Searches (m + 1) ts) (hdepth : s.depth + 1 ≤ maxNesting)
    (hending : s.ending.kind = .endOfInput) (hsteps : m + 3 ≤ steps) (prev : Nat) :
    ∃ n e, (statement ⟨steps, Grammar.reachIn steps⟩).run (s.upTo prev ts) =
      (some n, s.upTo e []) ∧ n.Nests (m + 1) := by
  cases hts with
  | @search m ts p p' p'' q hts =>
    obtain ⟨steps, rfl⟩ : ∃ k, steps = k + 1 := ⟨steps - 1, by omega⟩
    have hcurrent (e : Nat) : (s.upTo e []).current.kind = .endOfInput := hending
    have hends (e : Nat) : endsBody (s.upTo e []).current = true := by
      rw [endsBody, hcurrent]
    have hfewer : m + 2 ≤ steps := by omega
    obtain ⟨n, hoperator, hn⟩ := run_search hts prev p p' p'' q (Nat.zero_lt_of_lt hfewer)
      (hends _) (run_parenItem hts hdepth hfewer _ q [])
    have hpipes : (pipes ⟨steps + 1, Grammar.reachIn (steps + 1)⟩ (.find p) n).run
        (s.upTo (Token.closing q).stop []) = (some n, s.upTo (Token.closing q).stop []) := by
      rw [pipes, loop]
      simp only [rounds_succ, pipeRound, run_accept_bind, hcurrent]
      rfl
    refine ⟨.mk .none .expressionStatement ((s.upTo (Token.closing q).stop []).spanFrom (.find p))
      (.find p) [n.inSlot .expression], (Token.closing q).stop, ?_,
      .inside List.mem_cons_self (hn.inSlot _)⟩
    rw [← run_leading] at hoperator
    have hpipeExpression : (pipeExpression ⟨steps + 1, Grammar.reachIn (steps + 1)⟩).run
        (s.upTo prev (.find p :: .within p' :: .opening p'' :: (ts ++ [.closing q]))) =
          (some n, s.upTo (Token.closing q).stop []) := by
      rw [pipeExpression, run_current_bind, run_peek_bind]
      dsimp only
      rw [if_pos (startsLeading_upTo _ _ _ _), run_bind_some hoperator]
      exact hpipes
    -- the keyword of a search begins no other statement
    change (expressionStatement _ (.find p)).run _ = _
    rw [expressionStatement, run_bind_some hpipeExpression]
    rfl

end Searches

/-! ### Their text -/

theorem Searches.length {m : Nat} {ts : List Token} (h : Searches m ts) : ts.length = 4 * m + 1 := by
  induction h with
  | table p => rfl
  | search p p' p'' q h ih =>
    simp only [List.length_cons, List.length_append, List.length_nil, ih]
    omega

/-- Searches inside each other are a text whose statement is read without a report. -/
theorem Searches.reads {m : Nat} {ts : List Token} (hts : Searches (m + 1) ts) (text : Bytes)
    (after : Position) : ∃ n, Reads text ⟨ts, .endAt after, []⟩ [n] ∧ n.Nests (m + 1) := by
  let s := start text ⟨ts, .endAt after, []⟩
  have hsteps : m + 3 ≤ 2 * ts.length + 1 := by
    have := hts.length
    omega
  have hdepth : s.depth + 1 ≤ maxNesting := Nat.le_add_left 2 998
  obtain ⟨n, e, hstatement, hn⟩ := hts.run_statement hdepth rfl hsteps 0
  have hfirst : ts ≠ [] ∧ endsStatement .endOfInput (s.upTo 0 ts).current = false := by
    cases hts
    exact ⟨nofun, rfl⟩
  have hstatements : statementsOf text ⟨ts, .endAt after, []⟩ = (some [n], s.upTo e []) :=
    statementsOf_statement hfirst.1 hfirst.2 hstatement ⟨rfl, rfl⟩ rfl
  exact ⟨n, ⟨by rw [hstatements], by rw [hstatements]; exact ⟨rfl, rfl⟩⟩, hn⟩

/-- Searches inside each other are a text without faults, and they all stand inside each other. -/
theorem parse_nestedSearches (catalog : TableNames) (m : Nat) :
    ∃ p, parse catalog (nestedSearches (m + 1)) = .ok p ∧ p.diagnostics = [] ∧
      p.root.Nests (m + 1) := by
  obtain ⟨ts, after, hts, hread⟩ := Searches.tokenize (m + 1)
  obtain ⟨n, hreads, hn⟩ := hts.reads (nestedSearches (m + 1)) after
  have hmark : Parsed.withoutMark (nestedSearches (m + 1)) = nestedSearches (m + 1) :=
    withoutMark_eq rfl
  rw [← hmark] at hread hreads
  obtain ⟨p, hparse, hclean, hroot⟩ := parse_of_reads catalog hread rfl hreads
  refine ⟨p, hparse, hclean, ?_⟩
  rw [hroot]
  exact Node.Nests.resolve (.inside List.mem_cons_self (hn.inSlot _)) .top .scalar

end KustoFacts
