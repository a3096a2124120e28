import KustoFacts.Proofs.Query.Bounds
import KustoFacts.Proofs.Query.Brackets

/-!
    A part of a text that holds one statement, whatever is wrong with it. A state holds to the part
    if the tokens left begin with some of the statement's, and if the braces still open are those
    that these tokens close. A step keeps to it (`Part.Keeps`) when it leaves such a state behind,
    inside as many braces as before, whether it returns or gives up. There is one lemma for each way
    in which steps are put together. Only steps that consume a token whose kind they have seen are
    sure to keep to the part; the two places where a production consumes tokens without looking at
    them are a condition on the tokens (`Recoverable`). -/

namespace KustoFacts

/-- Tokens of a statement that can be given up. Its braces are balanced. A bracket after a dot is
    followed by a token that is no brace, since a name in brackets is taken for whatever stands
    there; and a parenthesis after a colon, which may open the type of a parameter, is closed again
    with all brackets between them balanced, since the type is passed over. -/
structure Recoverable (ts : List Token) : Prop where
  unseparated : ∀ t ∈ ts, t.kind ≠ .semicolon
  blocks : Balanced .leftBrace .rightBrace ts
  members : ∀ dot bracket more, dot :: bracket :: more <:+ ts → dot.kind = .dot →
    bracket.kind = .leftBracket →
    ∃ t ∈ more.head?, t.kind ≠ .leftBrace ∧ t.kind ≠ .rightBrace
  types : ∀ colon paren more, colon :: paren :: more <:+ ts → colon.kind = .colon →
    paren.kind = .leftParen →
    ∃ inner closing rest, more = inner ++ closing :: rest ∧ closing.kind = .rightParen ∧
      Balanced .leftParen .rightParen inner ∧ Balanced .leftBrace .rightBrace inner

/-- The kinds by which statements are told apart. -/
def TokenKind.isEdge (k : TokenKind) : Bool :=
  k = .leftBrace || k = .rightBrace || k = .semicolon

theorem TokenKind.isEdge_eq_false {k : TokenKind} :
    k.isEdge = false ↔ k ≠ .leftBrace ∧ k ≠ .rightBrace ∧ k ≠ .semicolon := by
  simp [isEdge, and_assoc]

namespace Parser

/-- A statement among the tokens of a text, with the semicolon and the tokens after it. -/
structure Part where
  own : List Token
  semicolon : Token
  after : List Token
  recoverable : Recoverable own
  ends : semicolon.kind = .semicolon
  stands : ∀ t ∈ semicolon :: own,
    t.kind ≠ .endOfInput ∧ t.pos.offset ≤ t.stop ∧ t.stop ≤ semicolon.stop

/-- A state within a statement and inside a number of its braces. All reports stand at its tokens,
    or before them. -/
structure Part.Holds (P : Part) (depth : Nat) (s : ParserState) : Prop where
  tokens : ∃ left, left <:+ P.own ∧ s.tokens = left ++ P.semicolon :: P.after ∧
    depthAfter? .leftBrace .rightBrace depth left = some 0
  reported : ∀ d ∈ s.reported, d.stop ≤ P.semicolon.stop

variable {α β : Type} {P : Part} {depth : Nat} {s t : ParserState} {g : Grammar}

namespace Part.Holds

variable (h : P.Holds depth s)
include h

theorem tokens_ne_nil : s.tokens ≠ [] := by
  obtain ⟨left, -, htokens, -⟩ := h.tokens
  rw [htokens]
  simp

theorem current_mem : s.current ∈ P.semicolon :: P.own := by
  obtain ⟨left, hleft, htokens, -⟩ := h.tokens
  rw [ParserState.current, htokens]
  cases left with
  | nil => exact List.mem_cons_self
  | cons u us => exact List.mem_cons_of_mem _ (hleft.subset List.mem_cons_self)

theorem kind_ne_end : s.current.kind ≠ .endOfInput := (P.stands _ h.current_mem).1

/-- At the semicolon all braces are closed. -/
theorem semicolon (hkind : s.current.kind = .semicolon) :
    depth = 0 ∧ s.tokens = P.semicolon :: P.after := by
  obtain ⟨left, hleft, htokens, hdepth⟩ := h.tokens
  cases left with
  | nil => exact ⟨Option.some.inj hdepth, htokens⟩
  | cons u us =>
    rw [ParserState.current, htokens] at hkind
    exact absurd hkind (P.recoverable.unseparated u (hleft.subset List.mem_cons_self))

/-- Before the semicolon the current token is one of the statement. -/
theorem exists_left (hkind : s.current.kind ≠ .semicolon) :
    ∃ left, s.current :: left <:+ P.own ∧ s.advance.tokens = left ++ P.semicolon :: P.after ∧
      depthAfter? .leftBrace .rightBrace depth (s.current :: left) = some 0 := by
  obtain ⟨left, hleft, htokens, hdepth⟩ := h.tokens
  cases left with
  | nil =>
    rw [ParserState.current, htokens] at hkind
    exact absurd P.ends hkind
  | cons u us =>
    obtain rfl : s.current = u := by rw [ParserState.current, htokens]; rfl
    exact ⟨us, hleft, by rw [ParserState.advance, htokens]; rfl, hdepth⟩

/-- Two tokens before the semicolon are tokens of the statement. -/
theorem two_left (hkind : s.current.kind ≠ .semicolon) (hnext : s.next.kind ≠ .semicolon) :
    ∃ more, s.current :: s.next :: more <:+ P.own ∧
      s.advance.tokens = s.next :: more ++ P.semicolon :: P.after := by
  obtain ⟨left, hleft, htokens, -⟩ := h.exists_left hkind
  cases left with
  | nil =>
    rw [← ParserState.current_advance, ParserState.current, htokens] at hnext
    exact absurd P.ends hnext
  | cons u us =>
    obtain rfl : s.next = u := by rw [← ParserState.current_advance, ParserState.current, htokens]; rfl
    exact ⟨us, hleft, htokens⟩

theorem advance (hkind : s.current.kind.isEdge = false) : P.Holds depth s.advance := by
  obtain ⟨hopen, hclose, hsemi⟩ := TokenKind.isEdge_eq_false.1 hkind
  obtain ⟨left, hleft, htokens, hdepth⟩ := h.exists_left hsemi
  rw [depthAfter?_other hopen hclose] at hdepth
  exact ⟨⟨left, (List.suffix_cons _ _).trans hleft, htokens, hdepth⟩, h.reported⟩

theorem openBrace (hkind : s.current.kind = .leftBrace) : P.Holds (depth + 1) s.advance := by
  obtain ⟨left, hleft, htokens, hdepth⟩ := h.exists_left (by simp [hkind])
  rw [depthAfter?_opening hkind] at hdepth
  exact ⟨⟨left, (List.suffix_cons _ _).trans hleft, htokens, hdepth⟩, h.reported⟩

theorem closeBrace (hkind : s.current.kind = .rightBrace) :
    ∃ less, depth = less + 1 ∧ P.Holds less s.advance := by
  obtain ⟨left, hleft, htokens, hdepth⟩ := h.exists_left (by simp [hkind])
  obtain ⟨less, hless, hdepth⟩ := depthAfter?_closing (by decide) hkind hdepth
  exact ⟨less, hless, ⟨left, (List.suffix_cons _ _).trans hleft, htokens, hdepth⟩, h.reported⟩

theorem report (fault : Fault) : P.Holds depth (s.report fault) := by
  refine ⟨h.tokens, fun d hd => ?_⟩
  rcases List.mem_cons.1 hd with rfl | hd
  · obtain ⟨-, hstart, hstop⟩ := P.stands _ h.current_mem
    exact Nat.max_le.2 ⟨Nat.le_trans hstart hstop, hstop⟩
  · exact h.reported d hd

theorem reportNesting : P.Holds depth s.reportNesting := by
  unfold ParserState.reportNesting
  split
  · exact h
  · exact { h.report .nestingTooDeep with }

end Part.Holds

/-! ### Steps -/

/-- A step that does not leave the statement it is in, nor its braces. -/
def Part.Keeps (P : Part) (p : Parser α) (s : ParserState) : Prop :=
  ∀ depth, P.Holds depth s → P.Holds depth (p.run s).2

namespace Part.Keeps

variable {p : Parser α} {f : α → Parser β}

theorem pure {a : α} : P.Keeps (Pure.pure a) s := fun _ h => h

theorem build {first : Token} {form : Form} {children : List Node} :
    P.Keeps (Parser.build first form children) s := fun _ h => h

theorem refuse {fault : Fault} : P.Keeps (Parser.refuse fault : Parser α) s :=
  fun _ h => h.report fault

theorem fail : P.Keeps (Parser.fail : Parser α) s := fun _ h => h.reportNesting

theorem look {h : ParserState → α} (next : P.Keeps (f (h s)) s) :
    P.Keeps (Parser.look h >>= f) s := next

theorem bind (h : P.Keeps p s)
    (next : ∀ a t, p.run s = (some a, t) → P.Keeps (f a) t) : P.Keeps (p >>= f) s := by
  intro depth hs
  have ht := h depth hs
  rw [run_bind]
  rcases hp : p.run s with ⟨_ | a, t⟩ <;> rw [hp] at ht
  · exact ht
  · exact next a t hp depth ht

/-- One step after another that keeps wherever it begins. -/
theorem first (h : P.Keeps p s) (next : ∀ a t, P.Keeps (f a) t) : P.Keeps (p >>= f) s :=
  .bind h fun a t _ => next a t

theorem refuse_bind {fault : Fault} : P.Keeps (Parser.refuse fault >>= f) s :=
  fun _ h => h.report fault

theorem skip {f : Unit → Parser β} (hkind : s.current.kind.isEdge = false)
    (next : P.Keeps (f ()) s.advance) : P.Keeps (Parser.advance >>= f) s :=
  fun depth h => next depth (h.advance hkind)

/-- Consuming a token whose kind has been seen. -/
theorem take {kind : TokenKind} {f : Unit → Parser β} (hcurrent : s.current.kind = kind)
    (hkind : kind.isEdge = false) (next : P.Keeps (f ()) s.advance) :
    P.Keeps (Parser.advance >>= f) s := .skip (hcurrent ▸ hkind) next

theorem expect {kind : TokenKind} {f : Unit → Parser β} (hkind : kind.isEdge = false)
    (next : s.current.kind = kind → P.Keeps (f ()) s.advance) :
    P.Keeps (Parser.expect kind >>= f) s := by
  intro depth h
  by_cases hcurrent : s.current.kind = kind
  · simp only [run_bind, Parser.expect, if_pos hcurrent]
    exact next hcurrent depth (h.advance (hcurrent ▸ hkind))
  · simp only [run_bind, Parser.expect, if_neg hcurrent]
    exact h.report _

theorem accept {kind : TokenKind} {f : Bool → Parser β} (hkind : kind.isEdge = false)
    (yes : P.Keeps (f true) s.advance) (no : P.Keeps (f false) s) :
    P.Keeps (Parser.accept kind >>= f) s := by
  intro depth h
  rw [run_accept_bind]
  split
  next hcurrent => exact yes depth (h.advance (hcurrent ▸ hkind))
  next => exact no depth h

theorem nested {beyond : Parser α} (hinside : P.Keeps p (Frame.deeper s))
    (hbeyond : ∀ t, P.Keeps beyond t) : P.Keeps (Parser.nested p beyond) s := by
  intro depth h
  have hdeeper : P.Holds depth (Frame.deeper s) := { h with }
  rw [Parser.nested]
  dsimp only
  split
  · exact { hinside depth hdeeper with }
  · exact { hbeyond _ depth hdeeper.reportNesting with }

theorem loop {step : α → Parser (Round α β)} {bound : Nat} {a : α}
    (hstep : ∀ a t, P.Keeps (step a) t) : P.Keeps (Parser.loop step bound a) s := by
  intro depth h
  change P.Holds depth (rounds step bound a s).2
  induction bound generalizing a s with
  | zero => exact h.reportNesting
  | succ bound ih =>
    have ht := hstep a s depth h
    rw [rounds_succ]
    rcases hr : (step a).run s with ⟨_ | a' | b, t⟩ <;> rw [hr] at ht
    · exact ht
    · exact ih ht
    · exact ht

end Part.Keeps

/-- Infix operators are no edges. -/
theorem isEdge_of_infixLevel {u : Token} {level : Nat} (h : ¬infixLevel u ≤ level) :
    u.kind.isEdge = false := by
  unfold TokenKind.isEdge
  cases hkind : u.kind <;> simp_all [infixLevel]

theorem Part.Keeps.ask {p : Parser Bool} {seen : ParserState → Prop} (h : Asks p seen)
    {f : Bool → Parser β} (yes : seen s → P.Keeps (f true) s) (no : P.Keeps (f false) s) :
    P.Keeps (p >>= f) s := by
  intro depth hs
  obtain ⟨x, hrun, hseen⟩ := h s
  rw [run_bind, hrun]
  cases x with
  | true => exact yes (hseen rfl) depth hs
  | false => exact no depth hs

theorem Part.Keeps.acceptWord {word : Bytes} : P.Keeps (Parser.acceptWord word) s := by
  intro depth h
  simp only [Parser.acceptWord]
  split
  next hword => exact h.advance (Token.kind_of_isWord hword ▸ rfl)
  next => exact h

/-! ### Skipping -/

/-- Where the statements inside a number of braces end. -/
def stopAt : (depth : Nat) → TokenKind
  | 0 => .endOfInput
  | _ + 1 => .rightBrace

/-- A round of skipping inside a number of extra braces goes on inside as many as are open then, or
    it is at the end of the statement. -/
theorem run_skipRound (extra : Nat) (h : P.Holds (depth + extra) s) :
    (P.Holds depth s ∧ Ends (stopAt depth) s ∧
      (skipRound (stopAt depth) extra).run s = (some (.done ()), s)) ∨
    ∃ extra' : Nat, P.Holds (depth + extra') s.advance ∧
      (skipRound (stopAt depth) extra).run s = (some (.again (extra' : Int)), s.advance) := by
  rw [skipRound, run_current_bind]
  split
  next hkind => exact absurd hkind h.kind_ne_end
  next hkind =>
    obtain ⟨hzero, -⟩ := h.semicolon hkind
    obtain ⟨rfl, rfl⟩ : depth = 0 ∧ extra = 0 := by omega
    exact .inl ⟨h, ends_of_kind (.inl hkind), rfl⟩
  next hkind => exact .inr ⟨extra + 1, h.openBrace hkind, rfl⟩
  next hkind =>
    obtain ⟨less, hless, hadvance⟩ := h.closeBrace hkind
    cases extra with
    | zero =>
      -- the brace closes the block that is being read
      obtain rfl : depth = less + 1 := hless
      exact .inl ⟨h, ends_of_kind (.inr (.inr hkind)), rfl⟩
    | succ extra =>
      obtain rfl : less = depth + extra := by omega
      have hextra : ((extra + 1 : Nat) : Int) - 1 = (extra : Int) := by omega
      have hne : ((extra + 1 : Nat) : Int) ≠ 0 := by omega
      refine .inr ⟨extra, hadvance, ?_⟩
      rw [if_neg (by simp only [hne, decide_false, Bool.false_and, Bool.false_eq_true,
        not_false_eq_true]), run_advance_bind, run_pure, hextra]
  next hsemi hopen hclose =>
    have hedge := TokenKind.isEdge_eq_false.2 ⟨hopen, hclose, hsemi⟩
    exact .inr ⟨extra, h.advance hedge, rfl⟩

/-- What is left of a statement is skipped up to its end, inside the same braces. -/
theorem run_skipRounds (bound extra : Nat) (h : P.Holds (depth + extra) s)
    (hbound : s.tokens.length < bound) :
    ∃ t, rounds (skipRound (stopAt depth)) bound (extra : Int) s = (some (), t) ∧
      P.Holds depth t ∧ Ends (stopAt depth) t := by
  induction bound generalizing extra s with
  | zero => exact absurd hbound (Nat.not_lt_zero _)
  | succ bound ih =>
    have hfew : s.advance.tokens.length < bound := by
      have hpos := List.length_pos_iff.2 h.tokens_ne_nil
      simp only [ParserState.advance, List.length_tail]
      omega
    rw [rounds_succ]
    rcases run_skipRound extra h with ⟨hs, hends, hrun⟩ | ⟨extra', hs, hrun⟩ <;> rw [hrun]
    · exact ⟨s, rfl, hs, hends⟩
    · exact ih extra' hs hfew

/-- The tokens that are left within a statement and after it. -/
def Part.size (P : Part) : Nat := P.own.length + P.after.length + 1

theorem Part.Holds.length_le (h : P.Holds depth s) : s.tokens.length ≤ P.size := by
  obtain ⟨left, hleft, htokens, -⟩ := h.tokens
  have hlength := hleft.length_le
  rw [htokens, List.length_append, List.length_cons, Part.size]
  omega

theorem run_skipStatement (h : P.Holds depth s) (hbound : P.size < g.bound) :
    ∃ t, (skipStatement g (stopAt depth)).run s = (some (), t) ∧ P.Holds depth t ∧
      Ends (stopAt depth) t :=
  run_skipRounds g.bound 0 h (Nat.lt_of_le_of_lt h.length_le hbound)

end Parser
end KustoFacts
