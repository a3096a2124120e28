import KustoFacts.Proofs.Query.ExprParts

/-!
    Written expressions are parsed back. What follows an expression decides where its reading stops:
    reading goes on with infix operators that bind tighter than the level it was asked for, and with
    no others (`Expr.Climbs`). -/

namespace KustoFacts

open KustoFacts.Parser KustoFacts.Frame
open KustoFacts.Piece (place past)

namespace Expr

variable {s : ParserState} {p : Position} {rest : List Token} {e : Expr} {n level : Nat}

/-! ### Levels and lengths -/

theorem level_pos : ∀ e : Expr, 0 < e.level
  | name _ | number _ | string _ | call _ _ | paren _ => by simp [Expr.level]
  | signed _ _ => by simp [Expr.level]
  | binary _ op _ => (op.infixLevel_ofText .start).2.1

theorem length_pieces_pos (e : Expr) : 0 < e.pieces.length := by
  obtain ⟨x, xs, hpieces, -⟩ := e.exists_pieces
  rw [hpieces]
  exact Nat.succ_pos _

/-- The arguments of a call are as many as their tokens at most, and each of them is a part. -/
theorem length_listed (es : List Expr) : es.length ≤ (listed es).length ∧
    ∀ e ∈ es, e.pieces.length ≤ (listed es).length := by
  induction es with
  | nil => exact ⟨Nat.le_refl 0, nofun⟩
  | cons e es ih =>
    have hpos := e.length_pieces_pos
    rcases es with _ | ⟨e', es⟩
    · exact ⟨hpos, List.forall_mem_singleton.2 (Nat.le_refl _)⟩
    · have hlength : (listed (e :: e' :: es)).length =
          e.pieces.length + ((listed (e' :: es)).length + 1) := by
        rw [listed_cons, List.length_append, List.length_cons]
      rw [hlength]
      refine ⟨?_, List.forall_mem_cons.2 ⟨Nat.le_add_right _ _, fun e₁ he₁ => ?_⟩⟩
      · have := ih.1
        simp only [List.length_cons] at this ⊢
        omega
      · have := ih.2 e₁ he₁
        omega

theorem nesting_lt_nestingInside (es : List Expr) : ∀ e ∈ es, e.nesting < nestingInside es := by
  induction es with
  | nil => nofun
  | cons e es ih =>
    refine List.forall_mem_cons.2 ⟨Nat.le_max_left _ _, fun e₁ he₁ => ?_⟩
    exact Nat.lt_of_lt_of_le (ih e₁ he₁) (Nat.le_max_right _ _)

/-! ### Climbing -/

/-- Reading goes on from an expression as from a node that has been read, after fewer rounds than
    the expression has tokens, unless it binds no tighter than the level asked for. -/
def Climbs (e : Expr) : Prop :=
  ∀ (s : ParserState) (p : Position) (rest : List Token) (n level : Nat), level < e.level →
    Fits e n s → Follows (place p e.pieces) (follow s rest) →
    infixLevel (follow s rest) ≤ e.level → ∀ prev, ∃ node stop k, node.outline = e.node ∧
      k < e.pieces.length ∧ ∀ b,
        (do
          let left ← Grammar.reachIn n .unary
          loop (binaryRound (.within n) level (e.first p)) (b + k) left : Parser Node).run
          (s.upTo prev (place p e.pieces ++ rest)) =
        rounds (binaryRound (.within n) level (e.first p)) b node (s.upTo stop rest)

theorem run_binaryRound_done {g : Grammar} {first : Token} {left : Node}
    (h : infixLevel s.current ≤ level) :
    (binaryRound g level first left).run s = (some (.done left), s) := by
  rw [binaryRound, run_current_bind, if_pos h]
  rfl

/-- Reading stops before an operator that does not bind tighter than asked for. -/
theorem Climbs.readBy (h : Climbs e) (hlevel : level < e.level) (hfits : Fits e n s)
    (hfollow : Follows (place p e.pieces) (follow s rest))
    (hstop : infixLevel (follow s rest) ≤ level) :
    ReadBy (Parser.binary (.within n) level) s (place p e.pieces) rest e := by
  intro prev
  obtain ⟨node, stop, k, hnode, hk, hrun⟩ :=
    h s p rest n level hlevel hfits hfollow (hstop.trans hlevel.le) prev
  obtain ⟨b, hb⟩ : ∃ b, n = (b + 1) + k := ⟨n - k - 1, by have := hfits.steps; omega⟩
  refine ⟨node, stop, ?_, hnode⟩
  rw [Parser.binary, run_current_bind, e.current_place]
  have hbound : (Grammar.within n).bound = b + 1 + k := hb
  rw [hbound]
  refine (hrun (b + 1)).trans ?_
  rw [rounds_succ, run_binaryRound_done (s := s.upTo stop rest) hstop]

/-- Where an expression ends, it is read as a whole. -/
theorem Climbs.readBy_expression (h : Climbs e) (hfits : Fits e n s)
    (hends : (follow s rest).kind ∈ [TokenKind.rightParen, .comma, .endOfInput]) :
    ReadBy (expression (.within n)) s (place p e.pieces) rest e :=
  h.readBy e.level_pos hfits (.of_ends hends) (infixLevel_of_ends hends).le

/-- An expression is read at once where an operand is asked for. -/
def Alone (e : Expr) : Prop :=
  ∀ (s : ParserState) (p : Position) (rest : List Token) (n : Nat), Fits e n s →
    Follows (place p e.pieces) (follow s rest) →
    ReadBy (Grammar.reachIn n .unary) s (place p e.pieces) rest e

/-- An operand that is read at once takes no round. -/
theorem Alone.climbs (h : Alone e) : Climbs e := by
  intro s p rest n level _ hfits hfollow _ prev
  obtain ⟨node, stop, hrun, hnode⟩ := h s p rest n hfits hfollow prev
  refine ⟨node, stop, 0, hnode, e.length_pieces_pos, fun b => ?_⟩
  rw [run_bind_some hrun]
  rfl

/-! ### Operands -/

/-- Operands stand one level deeper than where they are asked for. -/
theorem readBy_unary {ts : List Token} (hdepth : s.depth < maxNesting)
    (h : ReadBy (Parser.signed (.within n)) (deeper s) ts rest e) :
    ReadBy (Grammar.reachIn (n + 1) .unary) s ts rest e := by
  intro prev
  obtain ⟨node, stop, hrun, hnode⟩ := h prev
  refine ⟨node, stop, ?_, hnode⟩
  have hdepth : (s.upTo prev (ts ++ rest)).depth + 1 ≤ maxNesting := hdepth
  rw [Grammar.reachIn, Grammar.produce, run_nested hdepth]
  have hinside : (Parser.signed ⟨n, Grammar.reachIn n⟩).run (deeper (s.upTo prev (ts ++ rest))) =
      (some node, (deeper s).upTo stop rest) := hrun
  rw [hinside]
  rfl

/-- What is no sign is read with one step less. -/
theorem Alone.of_primary (hkind : e.lead.1 ∉ [TokenKind.plus, .minus])
    (h : ∀ (s : ParserState) (p : Position) (rest : List Token) (n : Nat), 0 < n →
      e.pieces.length ≤ n → s.depth + e.nesting ≤ maxNesting →
      Follows (place p e.pieces) (follow s rest) →
      ReadBy (primary (.within n)) s (place p e.pieces) rest e) : Alone e := by
  intro s p rest n hfits hfollow
  obtain ⟨n, rfl⟩ := Nat.exists_eq_succ_of_ne_zero (Nat.ne_of_gt (Nat.zero_lt_of_lt hfits.steps))
  have hlength := Nat.le_of_lt_succ hfits.steps
  have hbound : 0 < (Grammar.within n).bound := Nat.lt_of_lt_of_le e.length_pieces_pos hlength
  have hdepth := hfits.depth
  refine readBy_unary (by omega) (readBy_signed hbound hkind ?_ hfollow)
  exact h (deeper s) p rest n hbound hlength (by simp only [deeper]; omega) hfollow

theorem Alone.signed (sign : Sign) (h : Alone e) : Alone (signed sign e) := by
  intro s p rest n hfits hfollow
  obtain ⟨n, rfl⟩ := Nat.exists_eq_succ_of_ne_zero (Nat.ne_of_gt (Nat.zero_lt_of_lt hfits.steps))
  have hdepth := hfits.depth
  have hsteps := hfits.steps
  rw [nesting] at hdepth
  rw [pieces, List.length_cons] at hsteps
  refine readBy_unary (by omega) fun prev => ?_
  let t : Token := .ofText sign.kind sign.text p
  let q := past p [.apart sign.kind sign.text]
  obtain ⟨node, stop, hrun, hnode⟩ := h (deeper s) q rest n
    ⟨by simp only [deeper]; omega, by omega⟩ (hfollow.mono (List.subset_cons_self t _)) t.stop
  refine ⟨.mk .none (.unary sign.text) (((deeper s).upTo stop rest).spanFrom t) t
    [node.inSlot .expression], stop, ?_, ?_⟩
  · have hsign : t.kind = .minus ∨ t.kind = .plus := by cases sign <;> simp [t, Sign.kind]
    change (Parser.signed (.within n)).run
      ((deeper s).upTo prev (t :: (place q e.pieces ++ rest))) = _
    rw [Parser.signed, run_current_bind, ParserState.current_upTo, if_pos (by simpa using hsign),
      run_advance_bind, ParserState.advance_upTo]
    refine (run_bind_some hrun).trans ?_
    rfl
  · rw [Node.outline_mk, List.map_singleton, Node.outline_inSlot, hnode]
    rfl

/-! ### Items -/

theorem Climbs.readBy_parenItem (h : Climbs e) (hfits : Fits e n s)
    (hends : (follow s rest).kind ∈ [TokenKind.comma, .rightParen]) :
    ReadBy (parenItem (.within n)) s (place p e.pieces) rest e := by
  have hends : (follow s rest).kind ∈ [TokenKind.rightParen, .comma, .endOfInput] := by
    simp only [List.mem_cons, List.not_mem_nil, or_false] at hends ⊢
    tauto
  exact Expr.readBy_parenItem (Nat.zero_lt_of_lt hfits.steps) (h.readBy_expression hfits hends)
    (.of_ends hends)

theorem Alone.paren (h : Climbs e) : Alone (paren e) := by
  refine .of_primary (by simp [lead]) fun s p rest n hbound hlength hdepth hfollow => ?_
  refine readBy_paren hbound fun q rest hends => h.readBy_parenItem ⟨?_, ?_⟩ hends
  · rw [nesting] at hdepth
    omega
  · simp only [pieces, List.length_cons, List.length_append, List.length_nil] at hlength
    omega

theorem Alone.call (f : PlainName) {es : List Expr} (h : ∀ e ∈ es, Climbs e) :
    Alone (call f es) := by
  refine .of_primary (by simp [lead]) fun s p rest n hbound hlength hdepth hfollow => ?_
  obtain ⟨hes, hpart⟩ := length_listed es
  simp only [pieces, List.length_cons, List.length_append, List.length_nil] at hlength
  rw [nesting] at hdepth
  have hroom : es.length ≤ n := by omega
  refine readBy_call hbound f es hroom fun e he q rest hends =>
    (h e he).readBy_parenItem ⟨?_, ?_⟩ hends
  · have := nesting_lt_nestingInside es e he
    omega
  · have := hpart e he
    omega

/-! ### Infix operators -/

/-- One round reads an operator that binds tighter than the level asked for and what stands on its
    right. -/
theorem run_binaryRound {g : Grammar} {op : InfixOperator} {right : Expr}
    (hlevel : level < op.level) (first : Token) (left : Node) (p q q' : Position)
    (h : ReadBy (g.reach (.binary op.level)) s (place q' right.pieces) rest right) (prev : Nat) :
    ∃ (node : Node) (stop : Nat), node.outline = right.node ∧
      (binaryRound g level first left).run (s.upTo prev (.ofText op.kind op.first p ::
        (place q op.second ++ (place q' right.pieces ++ rest)))) =
      (some (.again (.mk .none (.binary op.text) ((s.upTo stop rest).spanFrom first) first
        [left.inSlot .left, node.inSlot .right])), s.upTo stop rest) := by
  let t : Token := .ofText op.kind op.first p
  let after := place q' right.pieces ++ rest
  obtain ⟨stop, htext⟩ := op.run_operatorText s t.stop p q after
  obtain ⟨node, stop', hright, hnode⟩ := h stop
  obtain ⟨hlevel_eq, -⟩ := op.infixLevel_ofText p
  have htighter : ¬infixLevel t ≤ level := by
    rw [hlevel_eq]
    omega
  have hoperand (hstar : t.kind = .star) :
      startsOperand (s.upTo prev (t :: (place q op.second ++ after))).next = true := by
    obtain ⟨ts, hplace⟩ := right.exists_place q'
    have hafter : after = right.first q' :: (ts ++ rest) := by rw [← List.cons_append, ← hplace]
    rw [op.second_of_star hstar, hafter]
    exact right.startsOperand_first q'
  have hnot : ¬((decide (t.kind = .star) &&
      !startsOperand (s.upTo prev (t :: (place q op.second ++ after))).next) = true) := by
    simp only [Bool.and_eq_true, decide_eq_true_eq, Bool.not_eq_true', not_and]
    exact fun hstar => by rw [hoperand hstar]; nofun
  have hbetween :
      ¬((decide (t.text = bytes "between") || decide (t.text = bytes "!between")) = true) := by
    simp only [Bool.or_eq_true, decide_eq_true_eq, not_or]
    exact op.first_ne_between
  refine ⟨node, stop', hnode, ?_⟩
  change (binaryRound g level first left).run (s.upTo prev (t :: (place q op.second ++ after))) = _
  rw [binaryRound, run_current_bind, ParserState.current_upTo, if_neg htighter, run_peek_bind,
    if_neg hnot, if_neg hbetween, run_advance_bind, ParserState.advance_upTo, run_bind_some htext,
    hlevel_eq, run_bind_some hright]
  rfl

theorem Climbs.binary {left right : Expr} {op : InfixOperator} (hleft : Climbs left)
    (hright : Climbs right) (hlevel : op.level ≤ left.level) (hlevel' : op.level < right.level) :
    Climbs (binary left op right) := by
  intro s p rest n level hasked hfits hfollow hstop prev
  have hasked : level < op.level := hasked
  have hstop : infixLevel (follow s rest) ≤ op.level := hstop
  let t : Token := .ofText op.kind op.first (past p left.pieces)
  obtain ⟨q, q', hplace⟩ := exists_place_binary left right op p
  have hright' : place q' right.pieces ⊆ place p (Expr.binary left op right).pieces := by
    rw [hplace]
    exact fun u hu => by simp [hu]
  have hdepth := hfits.depth
  have hsteps := hfits.steps
  have hpos := left.length_pieces_pos
  have hlength : (Expr.binary left op right).pieces.length =
      left.pieces.length + (op.second.length + 1) + right.pieces.length := by
    simp only [pieces, InfixOperator.pieces, List.length_append, List.length_cons]
    omega
  rw [nesting] at hdepth
  obtain ⟨ht, hpositive, -⟩ : infixLevel t = op.level ∧ 0 < op.level ∧ op.level ≤ 5 :=
    op.infixLevel_ofText _
  have hfollowLeft : Follows (place p left.pieces) t :=
    ⟨.inl (ht ▸ hpositive.ne'), fun _ u hu => (Piece.Sound.stop_lt left.sound u hu).ne'⟩
  obtain ⟨node, stop, k, hnode, hk, hrun⟩ := hleft s p
    (t :: (place q op.second ++ (place q' right.pieces ++ rest))) n level (by omega)
    ⟨by omega, by omega⟩ hfollowLeft (ht.le.trans hlevel) prev
  obtain ⟨n, rfl⟩ : ∃ m, n = m + 1 := ⟨n - 1, by omega⟩
  have hreadRight :
      ReadBy (Parser.binary (.within n) op.level) s (place q' right.pieces) rest right :=
    hright.readBy hlevel' ⟨by omega, by omega⟩ (hfollow.mono hright') hstop
  obtain ⟨node', stop', hnode', hround⟩ := run_binaryRound (g := .within (n + 1)) hasked
    (left.first p) node (past p left.pieces) q q' hreadRight stop
  refine ⟨.mk .none (.binary op.text) ((s.upTo stop' rest).spanFrom (left.first p)) (left.first p)
    [node.inSlot .left, node'.inSlot .right], stop', k + 1, ?_, by omega, fun b => ?_⟩
  · rw [Node.outline_mk]
    simp only [List.map_cons, List.map_nil, Node.outline_inSlot, hnode, hnode']
    rfl
  · rw [hplace, List.append_assoc, List.cons_append, List.append_assoc,
      show b + (k + 1) = (b + 1) + k by omega]
    refine (hrun (b + 1)).trans ?_
    rw [rounds_succ, hround]
    rfl

mutual

theorem reads : ∀ e : Expr, e.Binds → (6 ≤ e.level → Alone e) ∧ Climbs e
  | name x, _ =>
    have h := Alone.of_primary (e := name x) (by simp [lead]) fun _ _ _ _ _ _ _ hfollow =>
      readBy_name x hfollow
    ⟨fun _ => h, h.climbs⟩
  | number x, _ =>
    have h := Alone.of_primary (e := number x) (by simp [lead]) fun _ _ _ _ _ _ _ _ =>
      readBy_number x
    ⟨fun _ => h, h.climbs⟩
  | string x, _ =>
    have h := Alone.of_primary (e := string x) (by simp [lead]) fun _ _ _ _ hbound _ _ hfollow =>
      readBy_string hbound x hfollow
    ⟨fun _ => h, h.climbs⟩
  | signed sign operand, ⟨hlevel, hbinds⟩ =>
    have h := ((reads operand hbinds).1 hlevel).signed sign
    ⟨fun _ => h, h.climbs⟩
  | call f es, hbinds =>
    have h := Alone.call f (climbs_all es hbinds)
    ⟨fun _ => h, h.climbs⟩
  | paren inner, hbinds =>
    have h := Alone.paren (reads inner hbinds).2
    ⟨fun _ => h, h.climbs⟩
  | binary left op right, ⟨hlevel, hlevel', hleft, hright⟩ => by
    refine ⟨fun h => ?_, (reads left hleft).2.binary (reads right hright).2 hlevel hlevel'⟩
    have hop : op.level ≤ 5 := (op.infixLevel_ofText .start).2.2
    exact absurd (h.trans hop) (by decide)

theorem climbs_all : ∀ es : List Expr, AllBind es → ∀ e ∈ es, Climbs e
  | [], _ => nofun
  | e :: es, ⟨he, hes⟩ => List.forall_mem_cons.2 ⟨(reads e he).2, climbs_all es hes⟩

end

/-! ### Statements -/

/-- An expression is the only statement up to the end of the text. -/
theorem run_statement (h : Climbs e) (hfits : Fits e n s) (hend : s.ending.kind = .endOfInput)
    (prev : Nat) : ∃ node stop, node.outline = nodeFrom e.lead .expressionStatement
        [e.node.inSlot .expression] ∧
      (statement (.within n)).run (s.upTo prev (place p e.pieces)) =
        (some node, s.upTo stop []) := by
  have hends : (follow s []).kind ∈ [TokenKind.rightParen, .comma, .endOfInput] := by
    simp [follow, hend]
  have hbound : 0 < (Grammar.within n).bound := Nat.zero_lt_of_lt hfits.steps
  have hpiped : ReadBy (pipeExpression (.within n)) s (place p e.pieces) [] e :=
    readBy_leading (readBy_pipes hbound _ (h.readBy_expression hfits hends) (.of_ends hends))
  obtain ⟨inner, stop, hrun, hinner⟩ := hpiped prev
  rw [List.append_nil] at hrun
  refine ⟨.mk .none .expressionStatement ((s.upTo stop []).spanFrom (e.first p)) (e.first p)
    [inner.inSlot .expression], stop, ?_, ?_⟩
  · rw [Node.outline_mk, List.map_singleton, Node.outline_inSlot, hinner]
    rfl
  · have hword {w : Bytes} (hw : w ∈ reservedWords) : (e.first p).isWord w = false :=
      (e.unreserved_first p).isWord hw
    have hfirst := e.current_place s p prev []
    rw [List.append_nil] at hfirst
    rw [statement, run_current_bind, run_peek_bind, hfirst, hword (by decide), hword (by decide),
      hword (by decide), hword (by decide)]
    change (expressionStatement (.within n) (e.first p)).run _ = _
    rw [expressionStatement, run_bind_some hrun]
    rfl

mutual

/-- In the tree of an expression nothing is resolved. -/
theorem bare_node : ∀ e : Expr, e.node.bare = e.node
  | name _ | number _ | string _ => by simp only [node, nodeFrom, Node.bare_mk]; rfl
  | signed _ operand => by
    simp only [node, nodeFrom, Node.bare_mk, List.map_cons, List.map_nil, Node.bare_inSlot,
      bare_node operand, Form.bare]
  | binary left _ right => by
    simp only [node, nodeFrom, Node.bare_mk, List.map_cons, List.map_nil, Node.bare_inSlot,
      bare_node left, bare_node right, Form.bare]
  | call _ arguments => by
    simp only [node, nodeFrom, Node.bare_mk, map_bare_argumentNodes arguments, Form.bare]
  | paren inner => by
    simp only [node, nodeFrom, Node.bare_mk, List.map_cons, List.map_nil, Node.bare_inSlot,
      bare_node inner, Form.bare]

theorem map_bare_argumentNodes : ∀ es : List Expr,
    (argumentNodes es).map Node.bare = argumentNodes es
  | [] => rfl
  | e :: es => by
    rw [argumentNodes, List.map_cons, Node.bare_inSlot, bare_node e, map_bare_argumentNodes es]

end

theorem bare_query (e : Expr) : e.query.bare = e.query := by
  simp only [query, nodeFrom, Node.bare_mk, List.map_cons, List.map_nil, Node.bare_inSlot,
    e.bare_node, Form.bare]

end Expr

/-! ### Texts -/

/-- The tokens of an expression are read as the one statement of a text. -/
theorem Expr.reads_tokens {e : Expr} (h : e.Binds) (hnesting : e.nesting ≤ 900) (text : Bytes)
    (after : Position) : ∃ n, Reads text ⟨place .start e.pieces, .endAt after, []⟩ [n] ∧
      (queryOf text ⟨place .start e.pieces, .endAt after, []⟩ [n]).outline = e.query := by
  let read : Tokens := ⟨place .start e.pieces, .endAt after, []⟩
  let s := start text read
  have hfits : Fits e (2 * e.pieces.length + 1) s := by
    have hdepth : s.depth = 1 := rfl
    refine ⟨?_, by omega⟩
    rw [hdepth, maxNesting]
    omega
  obtain ⟨n, stop, hn, hstatement⟩ := run_statement (e.reads h).2 (p := .start) hfits rfl 0
  have hkind := e.kind_first .start
  have hlength : read.tokens.length = e.pieces.length := Piece.length_place .start e.pieces
  have hfirst : (s.upTo 0 read.tokens).current = e.first .start := by
    rw [← List.append_nil read.tokens]
    exact e.current_place s .start 0 []
  have hopens : endsStatement .endOfInput (s.upTo 0 read.tokens).current = false := by
    have hstays : ∀ kind ∈ [TokenKind.word, .number, .string, .plus, .minus, .leftParen],
        ∀ t : Token, t.kind = kind → endsStatement .endOfInput t = false := by
      simp +contextual [endsStatement]
    rw [hfirst]
    exact hstays _ hkind _ rfl
  have hstatements : statementsOf text read = (some [n], s.upTo stop []) := by
    refine statementsOf_statement ?_ hopens ?_ ⟨rfl, rfl⟩ rfl
    · exact List.ne_nil_of_length_pos (by rw [hlength]; exact e.length_pieces_pos)
    · rw [hlength]
      exact hstatement
  refine ⟨n, ⟨by rw [hstatements], by rw [hstatements]; exact ⟨rfl, rfl⟩⟩, ?_⟩
  have hinitial : (initial text read).current = e.first .start := hfirst
  rw [queryOf, Node.outline_mk, hinitial, List.map_singleton, List.map_singleton,
    Node.outline_inSlot, hn]
  rfl

/-- A written expression whose operands bind as its operators ask is read as the tree it was written
    from, unless it begins with a byte order mark, which is no part of the text. -/
theorem parse_written (catalog : TableNames) (e : Expr) (h : e.Binds) (hnesting : e.nesting ≤ 900)
    (hmark : e.written.beginsWith Parsed.byteOrderMark = false) :
    ∃ p, parse catalog e.written = .ok p ∧ p.diagnostics = [] ∧ p.root.bare.outline = e.query := by
  obtain ⟨n, hreads, hquery⟩ :=
    e.reads_tokens h hnesting e.written (Position.start.advance e.written)
  have hread : tokenize e.written =
      .ok ⟨place .start e.pieces, .endAt (Position.start.advance e.written), []⟩ := e.sound.tokenize
  rw [← withoutMark_eq hmark] at hread hreads hquery
  obtain ⟨p, hparse, hclean, hroot⟩ := parse_of_reads catalog hread rfl hreads
  refine ⟨p, hparse, hclean, ?_⟩
  rw [hroot, Node.bare_resolve, Node.outline_bare, hquery, e.bare_query]

/-- Names, numbers and strings under operators of several levels, a call and parentheses. -/
def Expr.mixed : Expr :=
  let a : PlainName := ⟨byteOf 'a', [], by decide, by decide, by decide⟩
  let b : PlainName := ⟨byteOf 'b', bytes "_1", by decide, by decide, by decide⟩
  let half : DecimalNumber := ⟨bytes "0", bytes ".5", [], by decide, .inr ⟨_, rfl, by decide⟩,
    .inl rfl, .inl (by decide)⟩
  let quoted : ClosedString := ⟨[.plain (byteOf 'x') (by decide), .escaped singleQuote (by decide)]⟩
  let lacks : NegatableWord := ⟨bytes "has", by decide, .inl (by decide), by decide⟩
  .binary
    (.binary
      (.binary (.signed .minus (.name b)) (.symbol .plus (bytes "+") (by decide))
        (.binary (.number half) (.symbol .star (bytes "*") (by decide)) (.name a)))
      (.word (bytes "matches") (by decide))
      (.call b [.paren (.binary (.name a) (.negated lacks) (.string quoted)), .name a]))
    (.word (bytes "or") (by decide)) (.name b)

theorem parse_written_mixed : Expr.mixed.Binds ∧ Expr.mixed.nesting ≤ 900 ∧
    Expr.mixed.written = bytes "- b_1 + 0.5 * a matches regex b_1( ( a !has 'x\\'' ) , a ) or b_1" ∧
    ∃ p, parse .empty Expr.mixed.written = .ok p ∧ p.diagnostics = [] ∧
      p.root.bare.outline = Expr.mixed.query :=
  ⟨by decide, by decide, by decide,
    parse_written .empty Expr.mixed (by decide) (by decide) (by decide)⟩

/-- A name that begins with the bytes of a byte order mark. -/
def PlainName.marked : PlainName :=
  ⟨0xEF, [0xBB, 0xBF, byteOf 'x'], by decide, by decide, by decide⟩

/-- A byte order mark is not read back. -/
theorem parse_written_marked : ¬∀ (catalog : TableNames) (e : Expr), e.Binds → e.nesting ≤ 900 →
    ∃ p, parse catalog e.written = .ok p ∧ p.diagnostics = [] ∧
      p.root.bare.outline = e.query := by
  intro h
  obtain ⟨p, hparse, -, hroot⟩ := h .empty (.name .marked) True.intro (by decide)
  have hview : (parse .empty (Expr.name .marked).written).toOption.map
      (fun p => p.root.bare.outline.preorder.map Node.form) =
        some [.query, .expressionStatement, .nameReference (bytes "x") .unknown] := by decide +kernel
  rw [hparse] at hview
  have hforms : p.root.bare.outline.preorder.map Node.form =
      [.query, .expressionStatement, .nameReference (bytes "x") .unknown] :=
    Option.some.inj hview
  rw [hroot] at hforms
  exact absurd hforms (by decide)

end KustoFacts
