import KustoFacts.Proofs.Query.ExprTokens
import KustoFacts.Proofs.Query.ParsedGrown

/-!
    The parts of written expressions are parsed back: names, numbers and strings, and calls and
    parentheses around what is parsed back itself. The parser looks at the tokens after a part to
    tell it from others; what may follow an expression (`Expr.Follows`) leads it to none of them. -/

namespace KustoFacts

open KustoFacts.Parser
open KustoFacts.Piece (place past)

/-- The grammar that is given a number of steps. -/
def Grammar.within (steps : Nat) : Grammar := ⟨steps, reachIn steps⟩

/-! ### Words that begin nothing else -/

/-- A token that is no word, or a word that is nothing but a name. -/
def Token.Unreserved (t : Token) : Prop := t.kind = .word → t.text ∉ reservedWords

namespace Token.Unreserved

variable {t : Token} (h : t.Unreserved)
include h

theorem isWord {w : Bytes} (hw : w ∈ reservedWords) : t.isWord w = false := by
  rw [← Bool.not_eq_true, Token.isWord, Bool.and_eq_true]
  rintro ⟨hkind, htext⟩
  simp only [decide_eq_true_eq] at hkind htext
  exact h hkind (htext ▸ hw)

theorem contains {ws : List Bytes} (hkind : t.kind = .word) (hws : ∀ w ∈ ws, w ∈ reservedWords) :
    ws.contains t.text = false := by
  rw [← Bool.not_eq_true, List.contains_iff_mem]
  exact fun hmem => h hkind (hws _ hmem)

theorem pipeOperators (hkind : t.kind = .word) : pipeOperators.contains t.text = false :=
  h.contains hkind fun _ hw => List.mem_append_left _ (List.mem_append_right _ hw)

theorem startsLeading (u : Token) : startsLeading t u = false := by
  unfold Parser.startsLeading
  split
  · rfl
  next hkind =>
    rw [not_not] at hkind
    rw [h.contains hkind (by decide), h.contains hkind (by decide), h.contains hkind (by decide)]
    have hrange : t.text ≠ bytes "range" := fun heq => h hkind (heq ▸ by decide)
    simp [hrange]

end Token.Unreserved

theorem PlainName.no_constant (x : PlainName) :
    (decide (x.text = bytes "true") || decide (x.text = bytes "false")) = false := by
  have hplain : x.text ∉ reservedWords := x.plain
  have htrue : x.text ≠ bytes "true" := fun h => hplain (h ▸ by decide)
  have hfalse : x.text ≠ bytes "false" := fun h => hplain (h ▸ by decide)
  simp [htrue, hfalse]

namespace InfixOperator

variable (op : InfixOperator)

theorem text_eq :
    op.text = if op.first = bytes "matches" then bytes "matches regex" else op.first := by
  rw [text, pieces, second]
  split
  next hmatches => rw [hmatches]; rfl
  next => rfl

theorem negated_ne {w : NegatableWord} {text : Bytes} (h : text.head? ≠ some (byteOf '!')) :
    (negated w).first ≠ text := fun heq => h (by rw [← heq]; rfl)

/-- An operator's token binds as the operator does, and no operand binds as loosely. -/
theorem infixLevel_ofText (p : Position) :
    infixLevel (.ofText op.kind op.first p) = op.level ∧ 0 < op.level ∧ op.level ≤ 5 := by
  rw [level, text_eq]
  cases op with
  | symbol kind text h =>
    have hsymbols : ∀ x ∈ infixSymbols, x.1 ≠ .word ∧ x.2 ≠ bytes "matches" ∧
        x.1.level = operatorLevel x.2 ∧ 0 < operatorLevel x.2 ∧ operatorLevel x.2 ≤ 5 := by
      decide
    obtain ⟨hkind, hmatches, hlevel, hbounds⟩ := hsymbols _ h
    rw [infixLevel_eq_level hkind, first, if_neg hmatches]
    exact ⟨hlevel, hbounds⟩
  | word text h =>
    have hwords : ∀ w ∈ infixWords,
        let level := operatorLevel (if w = bytes "matches" then bytes "matches regex" else w)
        infixLevel ⟨.word, w, .start, 0⟩ = level ∧ 0 < level ∧ level ≤ 5 := by
      decide
    exact hwords _ h
  | negated w =>
    rw [if_neg (negated_ne (by decide)), first, operatorLevel_negated]
    exact ⟨rfl, by decide, by decide⟩

theorem first_ne_between : op.first ≠ bytes "between" ∧ op.first ≠ bytes "!between" := by
  cases op with
  | symbol kind text h =>
    have hsymbols : ∀ x ∈ infixSymbols, x.2 ≠ bytes "between" ∧ x.2 ≠ bytes "!between" := by decide
    exact hsymbols _ h
  | word text h =>
    have hwords : ∀ w ∈ infixWords, w ≠ bytes "between" ∧ w ≠ bytes "!between" := by decide
    exact hwords _ h
  | negated w => exact ⟨negated_ne (by decide), fun h => w.plain (List.cons.inj h).2⟩

/-- A star is a whole operator. -/
theorem second_of_star (h : op.kind = .star) : op.second = [] := by
  refine if_neg ?_
  cases op with
  | symbol kind text hmem =>
    have hsymbols : ∀ x ∈ infixSymbols, x.2 ≠ bytes "matches" := by decide
    exact hsymbols _ hmem
  | word => cases h
  | negated => cases h

/-- The words of an operator are read as its text. -/
theorem run_operatorText (s : ParserState) (prev : Nat) (p q : Position) (rest : List Token) :
    ∃ stop, (operatorText (.ofText op.kind op.first p)).run
        (s.upTo prev (place q op.second ++ rest)) = (some op.text, s.upTo stop rest) := by
  rw [text_eq, operatorText, second, Token.text_ofText]
  by_cases hmatches : op.first = bytes "matches"
  · rw [if_pos hmatches, if_pos hmatches, if_pos hmatches]
    exact ⟨_, rfl⟩
  · rw [if_neg hmatches, if_neg hmatches, if_neg hmatches]
    exact ⟨_, rfl⟩

end InfixOperator

namespace Expr

variable {s : ParserState} {p : Position} {rest : List Token} {g : Grammar} {e : Expr}

/-! ### First tokens -/

/-- The first token of an expression. -/
def first (e : Expr) (p : Position) : Token := .ofText e.lead.1 e.lead.2 p

theorem exists_pieces (e : Expr) : ∃ x xs, e.pieces = x :: xs ∧ (x.kind, x.text) = e.lead := by
  cases e with
  | binary left op right =>
    obtain ⟨x, xs, hpieces, hlead⟩ := exists_pieces left
    exact ⟨x, xs ++ (op.pieces ++ right.pieces), by rw [pieces, hpieces, List.cons_append], hlead⟩
  | _ => exact ⟨_, _, rfl, rfl⟩

theorem exists_place (e : Expr) (p : Position) : ∃ ts, place p e.pieces = e.first p :: ts := by
  obtain ⟨x, xs, hpieces, hlead⟩ := e.exists_pieces
  rw [hpieces, place, first, ← hlead]
  exact ⟨_, rfl⟩

theorem current_place (e : Expr) (s : ParserState) (p : Position) (prev : Nat) (rest : List Token) :
    (s.upTo prev (place p e.pieces ++ rest)).current = e.first p := by
  obtain ⟨ts, hplace⟩ := e.exists_place p
  rw [hplace]
  rfl

/-- An operator stands between its operands. -/
theorem exists_place_binary (left right : Expr) (op : InfixOperator) (p : Position) :
    ∃ q q', place p (binary left op right).pieces = place p left.pieces ++
      .ofText op.kind op.first (past p left.pieces) ::
        (place q op.second ++ place q' right.pieces) := by
  rw [pieces, Piece.place_append, InfixOperator.pieces, List.cons_append, place,
    Piece.place_append]
  exact ⟨_, _, rfl⟩

/-- The kinds of token that an expression begins with. -/
theorem kind_first : ∀ (e : Expr) (p : Position),
    (e.first p).kind ∈ [TokenKind.word, .number, .string, .plus, .minus, .leftParen]
  | name _, _ | number _, _ | string _, _ | call _ _, _ | paren _, _ => by
    simp [first, lead, Token.ofText]
  | signed sign _, _ => by cases sign <;> simp [first, lead, Token.ofText, Sign.kind]
  | binary left _ _, p => kind_first left p

theorem startsOperand_first (e : Expr) (p : Position) : startsOperand (e.first p) = true := by
  have hkinds : ∀ kind ∈ [TokenKind.word, .number, .string, .plus, .minus, .leftParen],
      ∀ t : Token, t.kind = kind → startsOperand t = true := by
    simp +contextual [startsOperand]
  exact hkinds _ (e.kind_first p) _ rfl

theorem unreserved_first : ∀ (e : Expr) (p : Position), (e.first p).Unreserved
  | name x, _ | call x _, _ => fun _ => x.plain
  | number _, _ | string _, _ | paren _, _ => nofun
  | signed sign _, _ => by cases sign <;> nofun
  | binary left _ _, p => unreserved_first left p

/-- The token after an opening parenthesis is no operator. -/
theorem second_of_paren : ∀ (e : Expr) (p : Position), (e.first p).kind = .leftParen →
    ∃ t ts, place p e.pieces = e.first p :: t :: ts ∧ t.Unreserved
  | signed sign _, _, h => by cases sign <;> cases h
  | binary left op right, p, h => by
    obtain ⟨t, ts, hplace, ht⟩ := second_of_paren left p h
    exact ⟨t, _, by rw [pieces, Piece.place_append, hplace]; rfl, ht⟩
  | paren inner, p, _ => by
    obtain ⟨ts, hplace⟩ := inner.exists_place (past p [opening])
    refine ⟨_, ts ++ place (past (past p [opening]) inner.pieces) [closing], ?_,
      inner.unreserved_first (past p [opening])⟩
    have hinner := Piece.place_append (past p [opening]) inner.pieces [closing]
    rw [hplace] at hinner
    exact congrArg ((paren inner).first p :: ·) hinner

/-! ### What follows -/

/-- The token that comes first after those that are read. -/
def follow (s : ParserState) (rest : List Token) : Token := rest.headD s.ending

/-- What may follow an expression: an infix operator, a closing parenthesis, a comma or the end. No
    star touches a token of the expression. -/
structure Follows (ts : List Token) (u : Token) : Prop where
  kind : infixLevel u ≠ 0 ∨ u.kind ∈ [TokenKind.rightParen, .comma, .endOfInput]
  apart : u.kind = .star → ∀ t ∈ ts, u.pos.offset ≠ t.stop

section Follows

variable {ts ts' : List Token} {u : Token}

theorem Follows.mono (h : Follows ts u) (hsub : ts' ⊆ ts) : Follows ts' u :=
  ⟨h.kind, fun hstar t ht => h.apart hstar t (hsub ht)⟩

/-- Where an expression ends, no token of it is touched by a star. -/
theorem Follows.of_ends (h : u.kind ∈ [TokenKind.rightParen, .comma, .endOfInput]) :
    Follows ts u :=
  ⟨.inr h, fun hstar => by simp [hstar] at h⟩

theorem infixLevel_of_ends (h : u.kind ∈ [TokenKind.rightParen, .comma, .endOfInput]) :
    infixLevel u = 0 := by
  simp only [List.mem_cons, List.not_mem_nil, or_false] at h
  rcases h with h | h | h <;> simp [infixLevel, h]

/-- What an expression is not followed by. -/
theorem Follows.kind_ne (h : Follows ts u) {kind : TokenKind}
    (hkind : kind ∈ [TokenKind.string, .leftParen, .leftBracket, .dot, .assign, .pipe]) :
    u.kind ≠ kind := by
  rintro rfl
  simp only [List.mem_cons, List.not_mem_nil, or_false] at hkind
  rcases h.kind with hlevel | hends
  · refine hlevel ?_
    rcases hkind with h | h | h | h | h | h <;> simp [infixLevel, h]
  · rcases hkind with h | h | h | h | h | h <;> simp [h] at hends

end Follows

/-- What is needed to read an expression: there is room for what is nested in it, and it has fewer
    tokens than there are steps. -/
structure Fits (e : Expr) (steps : Nat) (s : ParserState) : Prop where
  depth : s.depth + e.nesting < maxNesting
  steps : e.pieces.length < steps

/-- A step reads tokens before others as the tree of an expression. -/
def ReadBy (q : Parser Node) (s : ParserState) (ts rest : List Token) (e : Expr) : Prop :=
  ∀ prev, ∃ n stop, q.run (s.upTo prev (ts ++ rest)) = (some n, s.upTo stop rest) ∧
    n.outline = e.node

/-! ### Loops that stop at once -/

theorem loop_done {α β : Type} {step : α → Parser (Round α β)} {bound : Nat} {a : α} {b : β}
    {t : ParserState} (hbound : 0 < bound) (h : (step a).run s = (some (.done b), t)) :
    (loop step bound a).run s = (some b, t) := by
  obtain ⟨bound, rfl⟩ := Nat.exists_eq_succ_of_ne_zero (Nat.ne_of_gt hbound)
  change rounds step (bound + 1) a s = _
  rw [rounds_succ, h]

/-- Nothing is selected from what is followed by neither a dot nor a bracket. -/
theorem run_postfixRound {t : Token} {n : Node} (hdot : s.current.kind ≠ .dot)
    (hbracket : s.current.kind ≠ .leftBracket) :
    (postfixRound g t n).run s = (some (.done n), s) := by
  simp [postfixRound, hdot, hbracket]

theorem run_pipeRound {t : Token} {n : Node} (h : s.current.kind ≠ .pipe) :
    (pipeRound g t n).run s = (some (.done n), s) := by
  rw [pipeRound, run_accept_bind, if_neg h]
  rfl

theorem run_stringRound (h : s.current.kind ≠ .string) :
    (stringRound ()).run s = (some (.done ()), s) := by
  rw [stringRound, run_accept_bind, if_neg h]
  rfl

/-! ### Operands -/

section Operands

variable {ts : List Token} (hbound : 0 < g.bound)
include hbound

theorem readBy_selected (h : ReadBy (primary g) s ts rest e)
    (hfollow : Follows ts (follow s rest)) : ReadBy (selected g) s ts rest e := by
  intro prev
  obtain ⟨n, stop, hrun, hn⟩ := h prev
  refine ⟨n, stop, ?_, hn⟩
  rw [selected, run_current_bind, run_bind_some hrun]
  exact loop_done hbound
    (run_postfixRound (hfollow.kind_ne (by decide)) (hfollow.kind_ne (by decide)))

/-- An operand without a sign is read where it begins. -/
theorem readBy_signed (hkind : (e.first p).kind ∉ [TokenKind.plus, .minus])
    (h : ReadBy (primary g) s (place p e.pieces) rest e)
    (hfollow : Follows (place p e.pieces) (follow s rest)) :
    ReadBy (Parser.signed g) s (place p e.pieces) rest e := by
  intro prev
  rw [Parser.signed, run_current_bind, e.current_place, if_neg]
  · exact readBy_selected hbound h hfollow prev
  · simp only [List.mem_cons, List.not_mem_nil, or_false, not_or] at hkind
    simp [hkind]

theorem readBy_string (x : ClosedString)
    (hfollow : Follows (place p (string x).pieces) (follow s rest)) :
    ReadBy (primary g) s (place p (string x).pieces) rest (string x) := by
  intro prev
  let t : Token := .ofText .string x.text p
  have hstrings : (adjacentStrings g).run (s.upTo t.stop rest) = (some (), s.upTo t.stop rest) :=
    loop_done hbound (run_stringRound (hfollow.kind_ne (by decide)))
  refine ⟨.mk .none .literal ((s.upTo t.stop rest).spanFrom t) t [], t.stop, ?_, ?_⟩
  · change (advance >>= fun _ => adjacentStrings g >>= fun _ => build t .literal []).run
      (s.upTo prev (t :: rest)) = _
    rw [run_advance_bind, ParserState.advance_upTo, run_bind_some hstrings]
    rfl
  · rw [Node.outline_mk]
    rfl

omit hbound

theorem readBy_number (x : DecimalNumber) :
    ReadBy (primary g) s (place p (number x).pieces) rest (number x) :=
  fun _ => ⟨_, _, rfl, by rw [Node.outline_mk]; rfl⟩

theorem readBy_name (x : PlainName) (hfollow : Follows (place p (name x).pieces) (follow s rest)) :
    ReadBy (primary g) s (place p (name x).pieces) rest (name x) := by
  intro prev
  let t : Token := .ofText .word x.text p
  let u := follow s rest
  let third := (s.upTo prev (t :: rest)).afterNext
  have hparen : u.kind ≠ .leftParen := hfollow.kind_ne (by decide)
  have hcall : startsCall t u third = false := by simp [startsCall, hparen]
  have hwildcard : startsWildcard t u third = false := by
    rw [startsWildcard, if_pos]
    by_cases hstar : u.kind = .star
    · have hapart : u.pos.offset ≠ t.stop := hfollow.apart hstar t List.mem_cons_self
      simp [hapart]
    · simp [hstar]
  refine ⟨.mk .none (.nameReference x.text .unknown) ((s.upTo t.stop rest).spanFrom t) t [], t.stop,
    ?_, ?_⟩
  · rw [primary, run_current_bind]
    change ((if decide (x.text = bytes "true") || decide (x.text = bytes "false") then _
      else if startsCall t u third then _ else if startsWildcard t u third then _
      else _) : Parser Node).run (s.upTo prev (t :: rest)) = _
    rw [x.no_constant, hcall, hwildcard]
    rfl
  · rw [Node.outline_mk]
    rfl

end Operands

/-! ### Items in parentheses -/

/-- No subquery begins with an expression. -/
theorem run_startsSubquery (e : Expr) (p : Position) (prev : Nat) :
    startsSubquery.run (s.upTo prev (place p e.pieces ++ rest)) =
      (some false, s.upTo prev (place p e.pieces ++ rest)) := by
  rw [startsSubquery, run_current_bind, run_peek_bind, run_peekSecond_bind, if_pos]
  · rfl
  by_cases hparen : (e.first p).kind = .leftParen
  · obtain ⟨t, ts, hplace, ht⟩ := e.second_of_paren p hparen
    rw [hplace]
    change (_ || decide (t.kind ≠ .word) || !pipeOperators.contains t.text) = true
    by_cases hword : t.kind = .word
    · rw [ht.pipeOperators hword]
      simp
    · simp [hword]
  · obtain ⟨ts, hplace⟩ := e.exists_place p
    rw [hplace]
    change (decide ((e.first p).kind ≠ .leftParen) || _ || _) = true
    simp [hparen]

/-- An expression that is no name given to another one. -/
theorem readBy_namedOrExpression (h : ReadBy (expression g) s (place p e.pieces) rest e)
    (hfollow : Follows (place p e.pieces) (follow s rest)) :
    ReadBy (namedOrExpression g) s (place p e.pieces) rest e := by
  intro prev
  obtain ⟨n, stop, hrun, hn⟩ := h prev
  refine ⟨n, stop, ?_, hn⟩
  have hassign : (s.upTo stop rest).current.kind ≠ .assign := hfollow.kind_ne (by decide)
  rw [namedOrExpression, run_current_bind, run_bind_some hrun, run_current_bind, if_pos hassign]
  rfl

/-- An expression without pipes, where pipes could follow. -/
theorem readBy_pipes (hbound : 0 < g.bound) (t : Token) {q : Parser Node}
    (h : ReadBy q s (place p e.pieces) rest e)
    (hfollow : Follows (place p e.pieces) (follow s rest)) :
    ReadBy (q >>= pipes g t) s (place p e.pieces) rest e := by
  intro prev
  obtain ⟨n, stop, hrun, hn⟩ := h prev
  refine ⟨n, stop, ?_, hn⟩
  rw [run_bind_some hrun]
  exact loop_done hbound (run_pipeRound (hfollow.kind_ne (by decide)))

/-- Where an operator could begin, an expression begins none. -/
theorem readBy_leading {q : Parser Node} {f : Token → Node → Parser Node}
    (h : ReadBy (q >>= f (e.first p)) s (place p e.pieces) rest e) :
    ReadBy (do
        let first ← current
        let head ← if startsLeading first (← peek) then leading g else q
        f first head) s (place p e.pieces) rest e := by
  intro prev
  rw [run_current_bind, run_peek_bind, e.current_place]
  dsimp only
  rw [if_neg (by rw [(e.unreserved_first p).startsLeading]; nofun)]
  exact h prev

theorem readBy_parenItem (hbound : 0 < g.bound)
    (h : ReadBy (expression g) s (place p e.pieces) rest e)
    (hfollow : Follows (place p e.pieces) (follow s rest)) :
    ReadBy (parenItem g) s (place p e.pieces) rest e := by
  intro prev
  have hnamed := readBy_namedOrExpression h hfollow
  rw [parenItem, run_bind_some (run_startsSubquery e p prev), if_neg Bool.false_ne_true]
  exact readBy_leading (readBy_pipes hbound _ hnamed hfollow) prev

/-- One item, after which a comma decides whether there are others. -/
theorem run_untilRound (h : ReadBy (parenItem g) s (place p e.pieces) rest e) (prev : Nat)
    (found : List Node) : ∃ n stop, n.outline = e.node ∧
      (untilRound .rightParen (parenItem g) found).run (s.upTo prev (place p e.pieces ++ rest)) =
        if (follow s rest).kind = .comma then
          (some (.again (n :: found)), (s.upTo stop rest).advance)
        else (some (.done (n :: found).reverse), s.upTo stop rest) := by
  obtain ⟨n, stop, hrun, hn⟩ := h prev
  refine ⟨n, stop, hn, ?_⟩
  have hfirst : (s.upTo prev (place p e.pieces ++ rest)).current.kind ≠ .rightParen := by
    have hkind := e.kind_first p
    rw [e.current_place]
    intro heq
    simp [heq] at hkind
  rw [untilRound, run_sees_bind, decide_eq_false hfirst, if_neg Bool.false_ne_true, commaRound,
    run_bind_some hrun, run_accept_bind]
  rfl

/-- Items up to a closing parenthesis, after those read before them. -/
theorem run_items (rest : List Token) (hrest : (follow s rest).kind = .rightParen)
    (es : List Expr)
    (h : ∀ e ∈ es, ∀ p rest, (follow s rest).kind ∈ [TokenKind.comma, .rightParen] →
      ReadBy (parenItem g) s (place p e.pieces) rest e) (p : Position) (bound prev : Nat)
    (found : List Node) (hbound : es.length ≤ bound) (hpos : 0 < bound) :
    ∃ ns stop, (loop (untilRound .rightParen (parenItem g)) bound found).run
        (s.upTo prev (place p (listed es) ++ rest)) =
      (some (found.reverse ++ ns), s.upTo stop rest) ∧ ns.map Node.outline = es.map node := by
  induction es generalizing p bound prev found with
  | nil =>
    refine ⟨[], prev, ?_, rfl⟩
    rw [List.append_nil]
    refine loop_done hpos ?_
    have hclose : (s.upTo prev rest).current.kind = .rightParen := hrest
    change (untilRound .rightParen (parenItem g) found).run (s.upTo prev rest) = _
    rw [untilRound, run_sees_bind, decide_eq_true hclose]
    rfl
  | cons e es ih =>
    obtain ⟨he, hes⟩ := List.forall_mem_cons.1 h
    rcases es with _ | ⟨e', es⟩
    · obtain ⟨n, stop, hn, hround⟩ := run_untilRound (he p rest (by simp [hrest])) prev found
      rw [hrest, if_neg (by decide)] at hround
      refine ⟨[n], stop, ?_, by rw [List.map_singleton, hn]; rfl⟩
      rw [← List.reverse_cons]
      exact loop_done hpos hround
    · obtain ⟨bound, rfl⟩ := Nat.exists_eq_succ_of_ne_zero (Nat.ne_of_gt hpos)
      let comma := Token.ofText .comma (bytes ",") (past p e.pieces)
      let next := past (past p e.pieces) [Expr.comma]
      have hplace : place p (listed (e :: e' :: es)) ++ rest =
          place p e.pieces ++ comma :: (place next (listed (e' :: es)) ++ rest) := by
        rw [listed_cons, Piece.place_append, List.append_assoc]
        rfl
      have hitem :=
        he p (comma :: (place next (listed (e' :: es)) ++ rest)) (by simp [follow, comma])
      obtain ⟨n, stop, hn, hround⟩ := run_untilRound hitem prev found
      rw [follow, List.headD_cons, if_pos (show comma.kind = .comma from rfl),
        ParserState.advance_upTo] at hround
      obtain ⟨ns, stop', hrun, hns⟩ :=
        ih hes next bound comma.stop (n :: found) (Nat.le_of_succ_le_succ hbound)
          (Nat.lt_of_lt_of_le (Nat.succ_pos _) (Nat.le_of_succ_le_succ hbound))
      refine ⟨n :: ns, stop', ?_, by rw [List.map_cons, hn, hns]; rfl⟩
      rw [hplace]
      change rounds _ (bound + 1) found _ = _
      rw [rounds_succ, hround]
      rw [List.reverse_cons, List.append_assoc] at hrun
      exact hrun

/-- All items up to a closing parenthesis, which is left. -/
theorem run_itemsUntil (hbound : 0 < g.bound) (es : List Expr) (hes : es.length ≤ g.bound)
    (h : ∀ e ∈ es, ∀ p rest, (follow s rest).kind ∈ [TokenKind.comma, .rightParen] →
      ReadBy (parenItem g) s (place p e.pieces) rest e) (p : Position) (prev : Nat)
    (rest : List Token) :
    ∃ ns stop, ns.map Node.outline = es.map node ∧
      (itemsUntil g.bound .rightParen (parenItem g)).run
        (s.upTo prev (place p (listed es ++ [closing]) ++ rest)) =
      (some ns, s.upTo stop (.ofText .rightParen (bytes ")") (past p (listed es)) :: rest)) := by
  let close := Token.ofText .rightParen (bytes ")") (past p (listed es))
  have hplace :
      place p (listed es ++ [closing]) ++ rest = place p (listed es) ++ close :: rest := by
    rw [Piece.place_append, List.append_assoc]
    rfl
  obtain ⟨ns, stop, hrun, hns⟩ :=
    run_items (close :: rest) rfl es h p g.bound prev [] hes hbound
  refine ⟨ns, stop, hns, ?_⟩
  rw [hplace]
  exact hrun

theorem readBy_paren (hbound : 0 < g.bound)
    (h : ∀ p rest, (follow s rest).kind ∈ [TokenKind.comma, .rightParen] →
      ReadBy (parenItem g) s (place p e.pieces) rest e) :
    ReadBy (primary g) s (place p (paren e).pieces) rest (paren e) := by
  intro prev
  let t : Token := .ofText .leftParen (bytes "(") p
  let close : Token := .ofText .rightParen (bytes ")") (past (past p [opening]) (listed [e]))
  let inside := place (past p [opening]) (listed [e] ++ [closing]) ++ rest
  obtain ⟨ns, stop, hns, hitems⟩ := run_itemsUntil hbound [e] (Nat.succ_le_of_lt hbound)
    (List.forall_mem_singleton.2 h) (past p [opening]) t.stop rest
  obtain ⟨n, rfl⟩ := List.length_eq_one_iff.1 (by simpa using congrArg List.length hns)
  refine ⟨.mk .none .parenthesized ((s.upTo close.stop rest).spanFrom t) t [n.inSlot .expression],
    close.stop, ?_, ?_⟩
  · change (parenthesized g).run (s.upTo prev (t :: inside)) = _
    rw [parenthesized, run_current_bind, run_advance_bind, ParserState.advance_upTo,
      run_bind_some hitems]
    rfl
  · rw [List.map_singleton, List.map_singleton, List.singleton_inj] at hns
    rw [Node.outline_mk, List.map_singleton, Node.outline_inSlot, hns]
    rfl

theorem argumentNodes_eq_map : ∀ es : List Expr,
    argumentNodes es = es.map fun e => e.node.inSlot .argument
  | [] => rfl
  | e :: es => congrArg (e.node.inSlot .argument :: ·) (argumentNodes_eq_map es)

theorem readBy_call (hbound : 0 < g.bound) (f : PlainName) (es : List Expr)
    (hes : es.length ≤ g.bound)
    (h : ∀ e ∈ es, ∀ p rest, (follow s rest).kind ∈ [TokenKind.comma, .rightParen] →
      ReadBy (parenItem g) s (place p e.pieces) rest e) :
    ReadBy (primary g) s (place p (call f es).pieces) rest (call f es) := by
  intro prev
  let t : Token := .ofText .word f.text p
  let paren : Token := .ofText .leftParen (bytes "(") (p.advance f.text)
  let inside := place (past (p.advance f.text) [opening]) (listed es ++ [closing]) ++ rest
  let third := (s.upTo prev (t :: paren :: inside)).afterNext
  let close : Token :=
    .ofText .rightParen (bytes ")") (past (past (p.advance f.text) [opening]) (listed es))
  obtain ⟨ns, stop, hns, hitems⟩ :=
    run_itemsUntil hbound es hes h (past (p.advance f.text) [opening]) paren.stop rest
  have hcall : startsCall t paren third = true := by
    have htouches : paren.pos.offset = t.stop := Piece.offset_advance p f.text
    simp [startsCall, htouches, paren]
  refine ⟨.mk .none (.functionCall f.text) ((s.upTo close.stop rest).spanFrom t) t
    (ns.map (·.inSlot .argument)), close.stop, ?_, ?_⟩
  · rw [primary, run_current_bind]
    change ((if decide (f.text = bytes "true") || decide (f.text = bytes "false") then _
      else if startsCall t paren third then _ else _) : Parser Node).run
        (s.upTo prev (t :: paren :: inside)) = _
    rw [f.no_constant, hcall]
    change (Parser.call g).run (s.upTo prev (t :: paren :: inside)) = _
    rw [Parser.call, run_current_bind, run_advance_bind, run_advance_bind,
      ParserState.advance_upTo, ParserState.advance_upTo, run_bind_some hitems]
    rfl
  · rw [Node.outline_mk, node, argumentNodes_eq_map, List.map_map]
    have harguments := congrArg (List.map (Node.inSlot .argument)) hns
    simp only [List.map_map] at harguments
    simp only [Function.comp_def, Node.outline_inSlot] at harguments ⊢
    rw [harguments]
    rfl

end Expr
end KustoFacts
