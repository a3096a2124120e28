import KustoFacts.Proofs.Query.ToEnd

/-!
    The bounds do not matter. A production is bounded twice: its loops are given a number of rounds,
    and the grammar it asks for goals is given a number of steps. On a text with few enough tokens
    neither is used up, and this is seen from the fact that it makes no difference what would happen
    if they were. There is one lemma for each production, about two grammars that reach the same
    wherever their steps are enough for the tokens left (`Twins`): as in the text that describes the
    steps of the grammar, each token pays for two of them. -/

namespace KustoFacts.Parser

variable {α β γ : Type} {text : Bytes} {read : Tokens} {g g' : Grammar} {steps : Nat}
  {s : ParserState}

/-- Two steps that do the same from a state on. -/
def Same (p p' : Parser α) (s : ParserState) : Prop := p.run s = p'.run s

namespace Same

variable {p p' : Parser α} {f f' : α → Parser β}

theorem rfl : Same p p s := Eq.refl _

theorem look {h : ParserState → α} (next : Same (f (h s)) (f' (h s)) s) :
    Same (Parser.look h >>= f) (Parser.look h >>= f') s := next

/-- After steps that do the same no more tokens are left than before. -/
theorem bind (hs : s.Along text read) (h : Same p p' s)
    (next : ∀ a t, p.run s = (some a, t) → t.Along text read →
      t.tokens.length ≤ s.tokens.length → Same (f a) (f' a) t) : Same (p >>= f) (p' >>= f') s := by
  have forward := p.forward s
  rw [Same, run_bind, run_bind, ← h]
  rcases hp : p.run s with ⟨_ | a, t⟩ <;> rw [hp] at forward
  exact next a t hp (hs.moves forward.moves).1 forward.tokens.length_le

/-- After a step without bounds. -/
theorem after (hs : s.Along text read)
    (next : ∀ a t, t.Along text read → t.tokens.length ≤ s.tokens.length → Same (f a) (f' a) t) :
    Same (p >>= f) (p >>= f') s := .bind hs .rfl fun a t _ => next a t

/-- Steps that differ only at their beginning. -/
theorem before (h : Same p p' s) : Same (p >>= f) (p' >>= f) s := by
  rw [Same, run_bind, run_bind, ← h]

theorem advance {f f' : Unit → Parser β} (hs : s.Along text read)
    (hkind : s.current.kind ≠ .endOfInput)
    (next : s.advance.Along text read → s.advance.tokens.length < s.tokens.length →
      Same (f ()) (f' ()) s.advance) : Same (Parser.advance >>= f) (Parser.advance >>= f') s :=
  next hs.advance (lt_advance hs hkind)

theorem expect {kind : TokenKind} {f f' : Unit → Parser β} (hs : s.Along text read)
    (hkind : (kind == .endOfInput) = false)
    (next : s.advance.Along text read → s.advance.tokens.length < s.tokens.length →
      Same (f ()) (f' ()) s.advance) :
    Same (Parser.expect kind >>= f) (Parser.expect kind >>= f') s := by
  by_cases hcurrent : s.current.kind = kind
  · have hend : s.current.kind ≠ .endOfInput := hcurrent ▸ ne_of_beq_false hkind
    simp only [Same, run_bind, Parser.expect, if_pos hcurrent]
    exact next hs.advance (lt_advance hs hend)
  · simp only [Same, run_bind, Parser.expect, if_neg hcurrent]

theorem accept {kind : TokenKind} {f f' : Bool → Parser β} (hs : s.Along text read)
    (hkind : (kind == .endOfInput) = false)
    (yes : s.advance.Along text read → s.advance.tokens.length < s.tokens.length →
      Same (f true) (f' true) s.advance) (no : Same (f false) (f' false) s) :
    Same (Parser.accept kind >>= f) (Parser.accept kind >>= f') s := by
  rw [Same, run_accept_bind, run_accept_bind]
  split
  next hcurrent =>
    exact yes hs.advance (lt_advance hs (hcurrent ▸ ne_of_beq_false hkind))
  next => exact no

theorem attempt (h : Same p p' s) : Same (Parser.attempt p) (Parser.attempt p') s := by
  simp only [Same, Parser.attempt, show p.run s = p'.run s from h]

theorem nested {beyond beyond' : Parser α} (hinside : Same p p' (Frame.deeper s))
    (hbeyond : Same beyond beyond' (Frame.deeper s).reportNesting) :
    Same (Parser.nested p beyond) (Parser.nested p' beyond') s := by
  have hinside : p.run { s with depth := s.depth + 1 } = p'.run { s with depth := s.depth + 1 } :=
    hinside
  have hbeyond : beyond.run { s with depth := s.depth + 1 }.reportNesting =
      beyond'.run { s with depth := s.depth + 1 }.reportNesting := hbeyond
  simp only [Same, Parser.nested, hinside, hbeyond]

/-- Rounds that advance are all made when there are more of them than tokens. -/
theorem loop {step step' : α → Parser (Round α γ)} {bound bound' : Nat} {a : α}
    (hs : s.Along text read) (hb : s.tokens.length < bound) (hb' : s.tokens.length < bound')
    (hadvances : ∀ a t, t.Along text read → Advances (step a) t)
    (h : ∀ a t, t.Along text read → t.tokens.length ≤ s.tokens.length →
      Same (step a) (step' a) t) :
    Same (Parser.loop step bound a) (Parser.loop step' bound' a) s := by
  suffices key : ∀ (bound bound' : Nat) (a : α) (t : ParserState), t.Along text read →
      t.tokens.length ≤ s.tokens.length → t.tokens.length < bound → t.tokens.length < bound' →
      rounds step bound a t = rounds step' bound' a t from
    key bound bound' a s hs (Nat.le_refl _) hb hb'
  intro bound
  induction bound with
  | zero => exact fun _ _ _ _ _ hb => absurd hb (Nat.not_lt_zero _)
  | succ bound ih =>
    intro bound' a t ht hfew hb hb'
    obtain ⟨bound', hsucc⟩ : ∃ m, bound' = m + 1 := ⟨bound' - 1, by omega⟩
    subst hsucc
    have forward := (step a).forward t
    rw [rounds_succ, rounds_succ, ← h a t ht hfew]
    rcases hr : (step a).run t with ⟨_ | a' | b, u⟩ <;> rw [hr] at forward
    have hlt : u.tokens.length < t.tokens.length := hadvances a t ht _ u hr
    exact ih bound' a' u (ht.moves forward.moves).1 (by omega) (by omega) (by omega)

end Same

/-! ### Items and names -/

section Items

variable {item item' : Parser Node} {bound bound' : Nat} (hs : s.Along text read)
  (hb : s.tokens.length < bound) (hb' : s.tokens.length < bound')
include hs hb hb'

theorem same_itemsByComma (hconsumes : ∀ t, t.Along text read → Consumes item t)
    (h : ∀ t, t.Along text read → t.tokens.length ≤ s.tokens.length → Same item item' t) :
    Same (itemsByComma bound item) (itemsByComma bound' item') s :=
  .loop hs hb hb' (fun _ t ht => (consumes_commaRound ht (hconsumes t ht)).advances)
    fun _ t ht hfew => .before (h t ht hfew)

theorem same_itemsUntil {close : TokenKind}
    (hconsumes : ∀ t, t.Along text read → Consumes item t)
    (h : ∀ t, t.Along text read → t.tokens.length ≤ s.tokens.length → Same item item' t) :
    Same (itemsUntil bound close item) (itemsUntil bound' close item') s := by
  refine .loop hs hb hb' (fun _ t ht => advances_untilRound ht (hconsumes t ht)) ?_
  intro found t ht hfew
  refine .look ?_
  split
  · exact .rfl
  · exact .before (h t ht hfew)

theorem same_dottedName {name : Bytes} : Same (dottedName bound name) (dottedName bound' name) s :=
  .loop hs hb hb' (fun _ _ ht => advances_dottedRound ht) fun _ _ _ _ => .rfl

theorem same_namedParameter : Same (namedParameter bound) (namedParameter bound') s := by
  refine .look (.after hs fun _ t ht hfew => .before (same_dottedName ht ?_ ?_))
  · omega
  · omega

end Items

/-! ### Productions -/

/-- Two grammars that reach the same wherever a number of steps is enough for the tokens left. -/
structure Twins (text : Bytes) (read : Tokens) (steps : Nat) (g g' : Grammar) : Prop where
  consuming : Consuming text read g
  bound : steps ≤ g.bound
  bound' : steps ≤ g'.bound
  unary {s : ParserState} (hs : s.Along text read) (hn : 2 * s.tokens.length + 1 ≤ steps) :
    Same (g.reach .unary) (g'.reach .unary) s
  pipeOperator {s : ParserState} (hs : s.Along text read) (hn : 2 * s.tokens.length + 1 ≤ steps) :
    Same (g.reach .pipeOperator) (g'.reach .pipeOperator) s
  sources {s : ParserState} (hs : s.Along text read) (hn : 2 * s.tokens.length + 1 ≤ steps) :
    Same (g.reach .sources) (g'.reach .sources) s
  binary {s : ParserState} (level : Nat) (hs : s.Along text read)
    (hn : 2 * s.tokens.length + 2 ≤ steps) :
    Same (g.reach (.binary level)) (g'.reach (.binary level)) s
  query {s : ParserState} (stop : TokenKind) (hs : s.Along text read)
    (hn : 2 * s.tokens.length + 2 ≤ steps) :
    Same (g.reach (.query stop)) (g'.reach (.query stop)) s

section Productions

variable (G : Twins text read steps g g') (hs : s.Along text read)

include G in
/-- With steps left for the tokens there are rounds enough. -/
theorem Twins.rounds (hn : 2 * s.tokens.length + 1 ≤ steps) :
    s.tokens.length < g.bound ∧ s.tokens.length < g'.bound := by
  have hb := G.bound
  have hb' := G.bound'
  omega

include G hs

/-! #### Expressions -/

theorem same_betweenTail (hn : 2 * s.tokens.length ≤ steps) (hkind : s.current.kind ≠ .endOfInput)
    {first : Token} {left : Node} {op : Bytes} :
    Same (betweenTail g first left op) (betweenTail g' first left op) s := by
  refine .advance hs hkind fun h1 l1 => .after h1 fun _ s2 h2 l2 => ?_
  refine .bind h2 (G.binary 0 h2 (by omega)) fun _ s3 _ h3 l3 => .after h3 fun _ s4 h4 l4 => ?_
  exact .before (G.binary 0 h4 (by omega))

theorem same_binaryRound (hn : 2 * s.tokens.length ≤ steps) {level : Nat} {first : Token}
    {left : Node} : Same (binaryRound g level first left) (binaryRound g' level first left) s := by
  refine .look ?_
  split
  · exact .rfl
  next hlevel =>
    have hend : s.current.kind ≠ .endOfInput := by
      intro hkind
      simp [infixLevel, hkind] at hlevel
    refine .look ?_
    split
    · exact .rfl
    split
    · exact .before (same_betweenTail G hs hn hend)
    refine .advance hs hend fun h1 l1 => .after h1 fun _ s2 h2 l2 => ?_
    exact .before (G.binary _ h2 (by omega))

theorem same_binary (hn : 2 * s.tokens.length + 1 ≤ steps) (level : Nat) :
    Same (binary g level) (binary g' level) s := by
  refine .look (.bind hs (G.unary hs hn) fun left t _ ht l => ?_)
  have hrounds := G.rounds (s := t) (by omega)
  exact .loop ht hrounds.1 hrounds.2 (fun _ _ hu => advances_binaryRound hu)
    fun _ u hu l' => same_binaryRound G hu (by omega)

theorem same_expression (hn : 2 * s.tokens.length + 1 ≤ steps) :
    Same (expression g) (expression g') s := same_binary G hs hn 0

theorem same_namedOrExpression (hn : 2 * s.tokens.length + 1 ≤ steps) :
    Same (namedOrExpression g) (namedOrExpression g') s := by
  refine .look (.bind hs (same_expression G hs hn) fun left t _ ht l => .look ?_)
  split
  · exact .rfl
  split
  · exact .rfl
  · exact .after ht fun _ u hu l' => .before (same_expression G hu (by omega))

theorem same_assigned (hn : 2 * s.tokens.length ≤ steps) : Same (assigned g) (assigned g') s :=
  .accept hs rfl (fun h1 l1 => .before (same_expression G h1 (by omega))) .rfl

theorem same_operatorArgument (hn : 2 * s.tokens.length + 1 ≤ steps) :
    Same (operatorArgument g) (operatorArgument g') s :=
  .look (.before (same_namedOrExpression G hs hn))

/-! #### Operators -/

theorem same_params (hn : 2 * s.tokens.length + 1 ≤ steps) (op : Bytes) :
    Same (params g op) (params g' op) s := by
  have hrounds := G.rounds hn
  refine .loop hs hrounds.1 hrounds.2 (fun _ _ ht => advances_paramRound ht) ?_
  intro found t ht l
  refine .after ht fun more u hu l' => ?_
  split
  · exact .before (same_namedParameter hu (by omega) (by omega))
  · exact .rfl

theorem same_expressions (hn : 2 * s.tokens.length + 1 ≤ steps) :
    Same (itemsByComma g.bound (expression g)) (itemsByComma g'.bound (expression g')) s := by
  have hrounds := G.rounds hn
  exact same_itemsByComma hs hrounds.1 hrounds.2 (fun _ ht => consumes_expression G.consuming ht)
    fun t ht l => same_expression G ht (by omega)

theorem same_conditions (hn : 2 * s.tokens.length + 1 ≤ steps) :
    Same (conditions g) (conditions g') s := by
  refine .look ?_
  split
  · exact .after hs fun _ t ht l => same_expressions G ht (by omega)
  · exact .rfl

theorem same_joinLike (hn : 2 * s.tokens.length ≤ steps) (hkind : s.current.kind ≠ .endOfInput)
    {form : Option Bytes → Form} : Same (joinLike g form) (joinLike g' form) s := by
  refine .look (.advance hs hkind fun h1 l1 => ?_)
  refine .bind h1 (same_params G h1 (by omega) _) fun _ s2 _ h2 l2 => ?_
  refine .bind h2 (same_expression G h2 (by omega)) fun _ s3 _ h3 l3 => ?_
  exact .before (same_conditions G h3 (by omega))

theorem same_union (hn : 2 * s.tokens.length ≤ steps) (hkind : s.current.kind ≠ .endOfInput) :
    Same (Parser.union g) (Parser.union g') s := by
  refine .look (.advance hs hkind fun h1 l1 => ?_)
  refine .bind h1 (same_params G h1 (by omega) _) fun _ s2 _ h2 l2 => ?_
  exact .before (same_expressions G h2 (by omega))

theorem same_pipes (hn : 2 * s.tokens.length + 1 ≤ steps) {first : Token} {source : Node} :
    Same (pipes g first source) (pipes g' first source) s := by
  have hrounds := G.rounds hn
  refine .loop hs hrounds.1 hrounds.2 (fun _ _ ht => advances_pipeRound ht) ?_
  intro source t ht l
  exact .accept ht (Eq.refl _) (fun h1 l1 => .before (G.pipeOperator h1 (by omega))) .rfl

theorem same_subquery (hn : 2 * s.tokens.length + 1 ≤ steps) : Same (subquery g) (subquery g') s := by
  refine .look (.after hs fun _ s1 h1 l1 => .look ?_)
  refine .bind h1 (G.pipeOperator h1 (by omega)) fun _ s2 _ h2 l2 => ?_
  exact .after h2 fun _ s3 h3 l3 => .before (same_pipes G h3 (by omega))

theorem same_braced (hn : 2 * s.tokens.length + 2 ≤ steps) : Same (braced g) (braced g') s :=
  .before (G.query _ hs hn)

theorem same_block (hn : 2 * s.tokens.length + 2 ≤ steps) : Same (block g) (block g') s :=
  .after hs fun _ t ht l => same_braced G ht (by omega)

theorem same_schemaAndRows (hn : 2 * s.tokens.length + 1 ≤ steps) :
    Same (schemaAndRows g) (schemaAndRows g') s := by
  have hb := G.bound
  have hb' := G.bound'
  refine .look (.after hs fun _ s1 h1 l1 => ?_)
  refine .bind h1 (same_itemsUntil h1 (by omega) (by omega)
    (fun _ ht => consumes_operatorArgument G.consuming ht)
    fun t ht l => same_operatorArgument G ht (by omega)) fun _ s2 _ h2 l2 => ?_
  refine .after h2 fun _ s3 h3 l3 => .after h3 fun _ s4 h4 l4 => .look (.after h4 fun _ s5 h5 l5 => ?_)
  exact .before (same_itemsUntil h5 (by omega) (by omega)
    (fun _ ht => consumes_expression G.consuming ht) fun t ht l => same_expression G ht (by omega))

theorem same_given (hn : 2 * s.tokens.length + 1 ≤ steps) (keyword : Bytes) :
    Same (given g keyword) (given g' keyword) s := by
  unfold given
  split
  · exact same_schemaAndRows G hs hn
  · exact .rfl

theorem same_searched (hn : 2 * s.tokens.length + 1 ≤ steps) (keyword : Bytes) :
    Same (searched g keyword) (searched g' keyword) s := by
  unfold searched
  split
  · refine .look (.look ?_)
    split
    · exact .after hs fun _ t ht l => .before (G.sources ht (by omega))
    · exact .rfl
  · exact .rfl

theorem same_body (hn : 2 * s.tokens.length + 2 ≤ steps) {found : List Node} :
    Same (body g found) (body g' found) s := by
  have hrounds := G.rounds (s := s) (by omega)
  refine .loop hs hrounds.1 hrounds.2 (fun _ _ ht => advances_bodyRound ht G.consuming) ?_
  intro found t ht l
  refine .look ?_
  split
  · exact .rfl
  refine .look ?_
  split
  · exact .rfl
  split
  · exact .before (same_block G ht (by omega))
  refine .after ht fun subquery u hu l' => ?_
  split
  · exact .before (same_subquery G hu (by omega))
  · exact .before (same_operatorArgument G hu (by omega))

theorem same_operator (hn : 2 * s.tokens.length ≤ steps) (hkind : s.current.kind ≠ .endOfInput) :
    Same (operator g) (operator g') s := by
  refine .look (.advance hs hkind fun h1 l1 => ?_)
  refine .bind h1 (same_params G h1 (by omega) _) fun _ s2 _ h2 l2 => ?_
  refine .bind h2 (same_given G h2 (by omega) _) fun _ s3 _ h3 l3 => ?_
  refine .bind h3 (same_searched G h3 (by omega) _) fun _ s4 _ h4 l4 => ?_
  exact .before (same_body G h4 (by omega))

theorem same_leading (hn : 2 * s.tokens.length ≤ steps) (hkind : s.current.kind ≠ .endOfInput) :
    Same (leading g) (leading g') s := by
  refine .look ?_
  split
  · exact same_union G hs hn hkind
  · exact same_operator G hs hn hkind

theorem same_pipeOperator (hn : 2 * s.tokens.length ≤ steps) :
    Same (pipeOperator g) (pipeOperator g') s := by
  refine .look ?_
  split
  · exact .rfl
  next hword =>
    have hkind : s.current.kind ≠ .endOfInput := by simp [not_not.1 hword]
    split
    · exact same_joinLike G hs hn hkind
    split
    · exact same_joinLike G hs hn hkind
    split
    · exact same_union G hs hn hkind
    split
    · exact same_operator G hs hn hkind
    · exact .rfl

/-! #### Operands -/

theorem same_parenItem (hn : 2 * s.tokens.length + 1 ≤ steps) :
    Same (parenItem g) (parenItem g') s := by
  refine .after hs fun subquery t ht l => ?_
  split
  · exact same_subquery G ht (by omega)
  refine .look (.look ?_)
  split
  next hleading =>
    have hkind := kind_of_startsLeading hleading
    refine .bind ht (same_leading G ht (by omega) hkind) fun head u _ hu l' => ?_
    exact same_pipes G hu (by omega)
  next =>
    refine .bind ht (same_namedOrExpression G ht (by omega)) fun head u _ hu l' => ?_
    exact same_pipes G hu (by omega)

/-- The items that a parenthesis or a call holds. -/
theorem same_parenItems (hn : 2 * s.tokens.length + 1 ≤ steps) :
    Same (itemsUntil g.bound .rightParen (parenItem g))
      (itemsUntil g'.bound .rightParen (parenItem g')) s := by
  have hrounds := G.rounds hn
  exact same_itemsUntil hs hrounds.1 hrounds.2 (fun _ ht => consumes_parenItem G.consuming ht)
    fun t ht l => same_parenItem G ht (by omega)

theorem same_call (hn : 2 * s.tokens.length ≤ steps) (hkind : s.current.kind ≠ .endOfInput) :
    Same (call g) (call g') s :=
  .look (.advance hs hkind fun h1 l1 => .after h1 fun _ s2 h2 l2 =>
    .before (same_parenItems G h2 (by omega)))

theorem same_bracketList (hn : 2 * s.tokens.length ≤ steps)
    (hkind : s.current.kind ≠ .endOfInput) : Same (bracketList g) (bracketList g') s := by
  refine .look (.advance hs hkind fun h1 l1 => ?_)
  have hrounds := G.rounds (s := s.advance) (by omega)
  exact .before (same_itemsUntil h1 hrounds.1 hrounds.2
    (fun _ ht => consumes_expression G.consuming ht) fun t ht l => same_expression G ht (by omega))

theorem same_parenthesized (hn : 2 * s.tokens.length ≤ steps)
    (hkind : s.current.kind ≠ .endOfInput) : Same (parenthesized g) (parenthesized g') s :=
  .look (.advance hs hkind fun h1 l1 => .before (same_parenItems G h1 (by omega)))

theorem same_wildcard (hn : 2 * s.tokens.length ≤ steps) (hkind : s.current.kind ≠ .endOfInput) :
    Same (wildcard g) (wildcard g') s := by
  refine .look (.advance hs hkind fun h1 l1 => ?_)
  have hrounds := G.rounds (s := s.advance) (by omega)
  exact .before (.loop h1 hrounds.1 hrounds.2 (fun _ _ ht => advances_wildcardRound ht)
    fun _ _ _ _ => .rfl)

theorem same_adjacentStrings (hn : 2 * s.tokens.length + 1 ≤ steps) :
    Same (adjacentStrings g) (adjacentStrings g') s := by
  have hrounds := G.rounds hn
  exact .loop hs hrounds.1 hrounds.2 (fun _ _ ht => advances_stringRound ht) fun _ _ _ _ => .rfl

theorem same_primary (hn : 2 * s.tokens.length ≤ steps) : Same (primary g) (primary g') s := by
  refine .look ?_
  split
  · exact .rfl
  · exact .rfl
  next hkind =>
    exact .advance hs (by simp [hkind]) fun h1 l1 => .before (same_adjacentStrings G h1 (by omega))
  next hkind =>
    have hword : s.current.kind ≠ .endOfInput := by simp [hkind]
    refine .look (.look ?_)
    split
    · exact .rfl
    split
    · exact same_call G hs hn hword
    split
    · exact same_wildcard G hs hn hword
    · exact .rfl
  next hkind =>
    refine .look (.look ?_)
    split
    · exact .rfl
    · exact same_bracketList G hs hn (by simp [hkind])
  next hkind => exact same_parenthesized G hs hn (by simp [hkind])
  · exact .rfl
  · exact .rfl

theorem same_selector (hn : 2 * s.tokens.length ≤ steps) (hkind : s.current.kind ≠ .endOfInput) :
    Same (selector g) (selector g') s := by
  refine .look ?_
  split
  · exact .rfl
  refine .look ?_
  split
  · exact same_call G hs hn hkind
  · exact .rfl

theorem same_postfixRound (hn : 2 * s.tokens.length ≤ steps) {first : Token} {node : Node} :
    Same (postfixRound g first node) (postfixRound g' first node) s := by
  refine .look (.look ?_)
  split
  next hdot =>
    simp only [Bool.and_eq_true, Bool.or_eq_true, decide_eq_true_eq] at hdot
    refine .advance hs (by simp [hdot.1]) fun h1 l1 => .before (same_selector G h1 (by omega) ?_)
    rw [ParserState.current_advance]
    rcases hdot.2 with hnext | hnext <;> simp [hnext]
  refine .look ?_
  split
  next htouches =>
    simp only [Bool.and_eq_true, decide_eq_true_eq] at htouches
    exact .advance hs (by simp [htouches.1]) fun h1 l1 => .before (same_expression G h1 (by omega))
  next => exact .rfl

theorem same_selected (hn : 2 * s.tokens.length ≤ steps) : Same (selected g) (selected g') s := by
  refine .look (.bind hs (same_primary G hs hn) fun node t hrun ht _ => ?_)
  have hlt : t.tokens.length < s.tokens.length := consumes_primary hs node t hrun
  have hrounds := G.rounds (s := t) (by omega)
  exact .loop ht hrounds.1 hrounds.2 (fun _ _ hu => advances_postfixRound hu)
    fun _ u hu l => same_postfixRound G hu (by omega)

theorem same_signed (hn : 2 * s.tokens.length ≤ steps) : Same (signed g) (signed g') s := by
  refine .look ?_
  split
  next hsign =>
    simp only [Bool.or_eq_true, decide_eq_true_eq] at hsign
    have hkind : s.current.kind ≠ .endOfInput := by rcases hsign with hk | hk <;> simp [hk]
    exact .advance hs hkind fun h1 l1 => .before (G.unary h1 (by omega))
  next => exact same_selected G hs hn

/-! #### Statements -/

theorem same_pipeExpression (hn : 2 * s.tokens.length + 1 ≤ steps) :
    Same (pipeExpression g) (pipeExpression g') s := by
  refine .look (.look ?_)
  split
  next hleading =>
    have hkind := kind_of_startsLeading hleading
    exact .bind hs (same_leading G hs (by omega) hkind) fun head t _ ht l =>
      same_pipes G ht (by omega)
  next =>
    exact .bind hs (same_expression G hs hn) fun head t _ ht l => same_pipes G ht (by omega)

theorem same_parameterType (hn : 2 * s.tokens.length + 1 ≤ steps) :
    Same (parameterType g) (parameterType g') s := by
  refine .look ?_
  split
  · refine .after hs fun _ t ht l => ?_
    have hrounds := G.rounds (s := t) (by omega)
    exact .before (.loop ht hrounds.1 hrounds.2 (fun _ _ hu => advances_closeRound hu)
      fun _ _ _ _ => .rfl)
  · exact .rfl

theorem same_parameter (hn : 2 * s.tokens.length + 1 ≤ steps) :
    Same (parameter g) (parameter g') s := by
  refine .look (.after hs fun _ s1 h1 l1 => .after h1 fun _ s2 h2 l2 => ?_)
  refine .bind h2 (same_parameterType G h2 (by omega)) fun _ s3 _ h3 l3 => ?_
  exact .before (same_assigned G h3 (by omega))

theorem same_parameterList (hn : 2 * s.tokens.length + 1 ≤ steps) :
    Same (parameterList g) (parameterList g') s := by
  refine .after hs fun _ t ht l => ?_
  have hrounds := G.rounds (s := t) (by omega)
  exact .before (same_itemsUntil ht hrounds.1 hrounds.2 (fun _ hu => consumes_parameter hu)
    fun u hu l' => same_parameter G hu (by omega))

theorem same_functionDeclaration (hn : 2 * s.tokens.length + 1 ≤ steps) :
    Same (functionDeclaration g) (functionDeclaration g') s := by
  refine .look (.after hs fun _ s1 h1 l1 => ?_)
  refine .bind h1 (same_parameterList G h1 (by omega)) fun _ s2 _ h2 l2 => ?_
  exact .expect h2 (Eq.refl _) fun h3 l3 => .before (same_braced G h3 (by omega))

theorem same_letStatement (hn : 2 * s.tokens.length + 1 ≤ steps) :
    Same (letStatement g) (letStatement g') s := by
  refine .look (.after hs fun _ s1 h1 l1 => .after h1 fun _ s2 h2 l2 => ?_)
  refine .after h2 fun _ s3 h3 l3 => .after h3 fun _ s4 h4 l4 => ?_
  split
  · exact .before (same_functionDeclaration G h4 (by omega))
  · exact .before (same_pipeExpression G h4 (by omega))

theorem same_setStatement (hn : 2 * s.tokens.length + 1 ≤ steps) :
    Same (setStatement g) (setStatement g') s := by
  refine .look (.after hs fun _ s1 h1 l1 => .look (.after h1 fun _ s2 h2 l2 => ?_))
  have hrounds := G.rounds (s := s2) (by omega)
  refine .bind h2 (same_dottedName h2 hrounds.1 hrounds.2) fun _ s3 _ h3 l3 => ?_
  exact .before (same_assigned G h3 (by omega))

theorem same_declareStatement (hn : 2 * s.tokens.length + 1 ≤ steps) :
    Same (declareStatement g) (declareStatement g') s :=
  .look (.after hs fun _ s1 h1 l1 => .after h1 fun _ s2 h2 l2 =>
    .before (same_parameterList G h2 (by omega)))

theorem same_aliasStatement (hn : 2 * s.tokens.length + 1 ≤ steps) :
    Same (aliasStatement g) (aliasStatement g') s := by
  refine .look (.after hs fun _ s1 h1 l1 => .after h1 fun _ s2 h2 l2 => ?_)
  refine .after h2 fun _ s3 h3 l3 => .after h3 fun _ s4 h4 l4 => ?_
  exact .before (same_expression G h4 (by omega))

theorem same_statement (hn : 2 * s.tokens.length + 1 ≤ steps) :
    Same (statement g) (statement g') s := by
  refine .look (.look ?_)
  split
  · exact same_letStatement G hs hn
  split
  · exact same_setStatement G hs hn
  split
  · exact same_declareStatement G hs hn
  split
  · exact same_aliasStatement G hs hn
  · exact .before (same_pipeExpression G hs hn)

theorem same_skipStatement (hn : 2 * s.tokens.length + 1 ≤ steps) {stop : TokenKind} :
    Same (skipStatement g stop) (skipStatement g' stop) s := by
  have hrounds := G.rounds hn
  exact .loop hs hrounds.1 hrounds.2 (fun _ _ ht => advances_skipRound ht) fun _ _ _ _ => .rfl

theorem same_statementRound (hn : 2 * s.tokens.length + 1 ≤ steps) {stop : TokenKind}
    {found : List Node} : Same (statementRound g stop found) (statementRound g' stop found) s := by
  refine .look ?_
  split
  · exact .rfl
  refine .after hs fun semicolon t ht l => ?_
  split
  · exact .rfl
  refine .look (.bind ht (.attempt (same_statement G ht (by omega))) fun read u _ hu l' => .look ?_)
  split
  · exact .before (same_skipStatement G hu (by omega))
  split
  · exact .before (same_skipStatement G (hu.report _)
      (show 2 * u.tokens.length + 1 ≤ steps by omega))
  · exact .rfl

theorem same_query (hn : 2 * s.tokens.length + 1 ≤ steps) (stop : TokenKind) :
    Same (query g stop) (query g' stop) s := by
  have hlength : (Frame.deeper s).tokens.length = s.tokens.length := Eq.refl _
  have hdeeper : (Frame.deeper s).Along text read := { hs with }
  have hfew := (Frame.deeper s).forward_reportNesting.tokens.length_le
  have hrounds := G.rounds (s := Frame.deeper s) hn
  refine .look (.before (.nested ?_ (.before ?_)))
  · exact .loop hdeeper hrounds.1 hrounds.2 (fun _ _ ht => advances_statementRound ht)
      fun _ t ht l => same_statementRound G ht (by omega)
  · exact same_skipStatement G hdeeper.reportNesting (by omega)

end Productions

/-! ### All goals -/

variable {bound bound' : Nat}

theorem twins_produce (G : Twins text read steps g g') (hb : steps + 1 ≤ bound)
    (hb' : steps + 1 ≤ bound') :
    Twins text read (steps + 1) ⟨bound, g.produce⟩ ⟨bound', g'.produce⟩ where
  consuming := consuming_produce G.consuming
  bound := hb
  bound' := hb'
  unary {s} hs hn :=
    have hdeeper : (Frame.deeper s).Along text read := { hs with }
    .nested (same_signed G hdeeper (show 2 * s.tokens.length ≤ steps by omega)) .rfl
  pipeOperator {s} hs hn :=
    have hdeeper : (Frame.deeper s).Along text read := { hs with }
    .nested (same_pipeOperator G hdeeper (show 2 * s.tokens.length ≤ steps by omega)) .rfl
  sources hs hn := same_primary G hs (by omega)
  binary level hs hn := same_binary G hs (by omega) level
  query stop hs hn := same_query G hs (by omega) stop

end KustoFacts.Parser

namespace KustoFacts

open KustoFacts.Parser

/-- A grammar of a number of steps on top of what is reached without any, with spare rounds for its
    loops. -/
def Grammar.above (bottom : Goal → Parser Node) (spare : Nat) : Nat → Grammar
  | 0 => ⟨spare, bottom⟩
  | steps + 1 => ⟨spare + steps + 1, (above bottom spare steps).produce⟩

/-- What is reached with a number of steps is reached with more of them on top of anything. -/
theorem Parser.twins_above (text : Bytes) (read : Tokens) (bottom : Goal → Parser Node)
    (spare more : Nat) : ∀ steps,
    Twins text read steps ⟨steps, Grammar.reachIn steps⟩ (.above bottom spare (steps + more))
  | 0 =>
    { consuming := consuming_reachIn text read 0 0
      bound := Nat.le_refl _
      bound' := Nat.zero_le _
      unary _ hn := absurd hn (by omega)
      pipeOperator _ hn := absurd hn (by omega)
      sources _ hn := absurd hn (by omega)
      binary _ _ hn := absurd hn (by omega)
      query _ _ hn := absurd hn (by omega) }
  | steps + 1 => by
    have habove : Grammar.above bottom spare (steps + 1 + more) =
        ⟨spare + (steps + more) + 1, (Grammar.above bottom spare (steps + more)).produce⟩ := by
      rw [Nat.add_right_comm steps 1 more, Grammar.above]
    rw [habove]
    exact twins_produce (twins_above text read bottom spare more steps) (Nat.le_refl _) (by omega)

end KustoFacts
