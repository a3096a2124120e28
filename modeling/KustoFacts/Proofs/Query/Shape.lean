import KustoFacts.Query.Parser.Basic

/-!
    The shape of trees. A form says which slots the children of its node fill, in which order, and
    what may stand in them: the slots a form needs are there, and no statement stands in the place of
    an operand. A tree is well formed if this holds of all its nodes and each of them covers a range
    of the text. Besides, the options of its operators are plain: no table can stand in their values.
    `Parser.Yields` is the logic in which the productions are shown to build such trees: it says of
    whatever a step returns, also after a report, that it has a property. -/

namespace KustoFacts

/-- What a node is to its parent. -/
inductive Part where
  | query
  | statement
  | function
  | parameter
  | setting
  | declaration
  | expression
  | operator
  | stub
  deriving DecidableEq

namespace Part

/-- What can stand for a table or a value: an expression, or an operator that needs no input. -/
def IsSource (p : Part) : Prop := p = .expression ∨ p = .operator

/-- What can stand in the body of an operator: an expression, or statements in braces. -/
def IsElement (p : Part) : Prop := p = .expression ∨ p = .query

end Part

namespace Form

/-- What a node of a form is to its parent. -/
def part : Form → Part
  | .query => .query
  | .letStatement _ | .setStatement _ _ | .expressionStatement => .statement
  | .functionDeclaration _ _ => .function
  | .parameter _ _ _ => .parameter
  | .namedParameter _ => .setting
  | .nameDeclaration _ => .declaration
  | .join _ | .lookup _ | .union | .operator _ => .operator
  | .stub _ _ => .stub
  | _ => .expression

/-- All of some slots are the same slot, with parts of one sort in it. -/
def Slots (role : Role) (sort : Part → Prop) (slots : List (Role × Part)) : Prop :=
  ∀ x ∈ slots, x.1 = role ∧ sort x.2

/-- The slots that the children of a form fill, with what stands in them. -/
def Admits (form : Form) (slots : List (Role × Part)) : Prop :=
  match form with
  | .query => Slots .statement (· = .statement) slots
  | .letStatement _ =>
    ∃ p, (p.IsSource ∨ p = .function) ∧ slots = [(.name, .declaration), (.value, p)]
  | .setStatement keyword _ =>
    if keyword = bytes "declare" then Slots .parameter (· = .parameter) slots
    else slots = [] ∨ slots = [(.value, .expression)]
  | .expressionStatement | .parenthesized => ∃ p : Part, p.IsSource ∧ slots = [(.expression, p)]
  | .functionDeclaration _ _ =>
    ∃ params, Slots .parameter (· = .parameter) params ∧ slots = params ++ [(.body, .query)]
  | .parameter _ _ _ => slots = [] ∨ slots = [(.value, .expression)]
  | .pipeExpression =>
    slots = [(.operator, .operator)] ∨
      ∃ p : Part, p.IsSource ∧ slots = [(.expression, p), (.operator, .operator)]
  | .nameReference _ _ | .nameDeclaration _ | .wildcardName _ | .literal | .star => slots = []
  | .functionCall _ => Slots .argument Part.IsSource slots
  | .binary _ => slots = [(.left, .expression), (.right, .expression)]
  | .unary _ => slots = [(.expression, .expression)]
  | .between _ => slots = [(.expression, .expression), (.low, .expression), (.high, .expression)]
  | .path => slots = [(.expression, .expression), (.selector, .expression)]
  | .elementAccess => slots = [(.expression, .expression), (.index, .expression)]
  | .namedExpression =>
    ∃ names, Slots .name (· = .declaration) names ∧ slots = names ++ [(.value, .expression)]
  | .namedParameter _ => slots = [(.value, .expression)]
  | .list => Slots .element Part.IsSource slots
  | .typedColumn _ => ∃ p, (p = .declaration ∨ p = .expression) ∧ slots = [(.name, p)]
  | .join _ | .lookup _ =>
    ∃ params conditions, Slots .parameter (· = .setting) params ∧
      Slots .condition (· = .expression) conditions ∧
      slots = params ++ (.right, .expression) :: conditions
  | .union =>
    ∃ params operands, Slots .parameter (· = .setting) params ∧
      Slots .operand (· = .expression) operands ∧ slots = params ++ operands
  | .operator _ =>
    ∃ params sources arguments, Slots .parameter (· = .setting) params ∧
      Slots .operand Part.IsSource sources ∧ Slots .argument Part.IsElement arguments ∧
      slots = params ++ sources ++ arguments
  | .stub _ _ => False

/-- Whether a slot of a form is one where a table is expected: the head of a pipe, the right side of
    a join or lookup, and the operands of a union. -/
def expectsTable (form : Form) (role : Role) : Bool :=
  match form with
  | .pipeExpression => role = .expression
  | .join _ | .lookup _ => role = .right
  | .union => role = .operand
  | _ => false

end Form

namespace Node

/-- The slot of a node and what it is to its parent. -/
def slot (n : Node) : Role × Part := (n.role, n.form.part)

/-- Every node covers a range of the text and has the children that its form admits. -/
inductive WellFormed (text : Bytes) : Node → Prop where
  | mk {role : Role} {form : Form} {span : Span} {first : Token} {children : List Node}
      (ordered : span.start ≤ span.stop) (inside : span.stop ≤ text.length)
      (admits : form.Admits (children.map slot)) (below : ∀ c ∈ children, c.WellFormed text) :
      WellFormed text (.mk role form span first children)

/-- No table is expected anywhere in a node. -/
inductive Tableless : Node → Prop where
  | mk {role : Role} {form : Form} {span : Span} {first : Token} {children : List Node}
      (slots : ∀ r, form.expectsTable r = false) (below : ∀ c ∈ children, c.Tableless) :
      Tableless (.mk role form span first children)

/-- No table is expected in the value of any option. -/
inductive PlainOptions : Node → Prop where
  | mk {role : Role} {form : Form} {span : Span} {first : Token} {children : List Node}
      (options : form.part = .setting → ∀ c ∈ children, c.Tableless)
      (below : ∀ c ∈ children, c.PlainOptions) : PlainOptions (.mk role form span first children)

/-- A well-formed node with plain options. -/
structure Made (text : Bytes) (n : Node) : Prop where
  wellFormed : n.WellFormed text
  options : n.PlainOptions

/-- A node of a given part as the parser makes it. -/
def MadeAs (text : Bytes) (p : Part) (n : Node) : Prop := n.Made text ∧ n.form.part = p

/-- A well-formed node of a given part. -/
def Is (text : Bytes) (p : Part) (n : Node) : Prop := n.WellFormed text ∧ n.form.part = p

/-- A node that stands for a table or a value. -/
def IsSource (text : Bytes) (n : Node) : Prop := n.Made text ∧ n.form.part.IsSource

/-- A node that can stand in the body of an operator. -/
def IsElement (text : Bytes) (n : Node) : Prop := n.Made text ∧ n.form.part.IsElement

variable {text : Bytes} {n : Node}

theorem WellFormed.inSlot (h : n.WellFormed text) (r : Role) : (n.inSlot r).WellFormed text := by
  cases h with
  | mk ordered inside admits below => exact .mk ordered inside admits below

theorem WellFormed.children (h : n.WellFormed text) : ∀ c ∈ n.children, c.WellFormed text := by
  cases h with
  | mk ordered inside admits below => exact below

theorem WellFormed.admits (h : n.WellFormed text) : n.form.Admits (n.children.map slot) := by
  cases h with
  | mk ordered inside admits below => exact admits

@[simp] theorem slot_inSlot (n : Node) (r : Role) : (n.inSlot r).slot = (r, n.form.part) := by
  cases n; rfl

@[simp] theorem form_inSlot (n : Node) (r : Role) : (n.inSlot r).form = n.form := by
  cases n; rfl

theorem PlainOptions.children (h : n.PlainOptions) : ∀ c ∈ n.children, c.PlainOptions := by
  cases h with
  | mk options below => exact below

theorem Made.inSlot (h : n.Made text) (r : Role) : (n.inSlot r).Made text := by
  refine ⟨h.wellFormed.inSlot r, ?_⟩
  cases h.options with
  | mk options below => exact .mk options below

theorem Made.children (h : n.Made text) : ∀ c ∈ n.children, c.Made text :=
  fun c hc => ⟨h.wellFormed.children c hc, h.options.children c hc⟩

/-- A declaration can stand in the place of any node. -/
theorem Made.asDeclaration {role role' : Role} {form : Form} {span : Span} {first : Token}
    {children : List Node} (h : (Node.mk role form span first children).Made text) (name : Bytes) :
    (Node.mk role' (.nameDeclaration name) span first []).MadeAs text .declaration := by
  obtain ⟨ordered, inside, -, -⟩ := h.wellFormed
  exact ⟨⟨.mk ordered inside rfl (List.forall_mem_nil _), .mk nofun (List.forall_mem_nil _)⟩, rfl⟩

theorem Tableless.inSlot (h : n.Tableless) (r : Role) : (n.inSlot r).Tableless := by
  cases h with
  | mk slots below => exact .mk slots below

theorem MadeAs.is {p : Part} (h : n.MadeAs text p) : n.Is text p := ⟨h.1.wellFormed, h.2⟩

theorem MadeAs.source (h : n.MadeAs text .expression) : n.IsSource text := ⟨h.1, .inl h.2⟩

theorem MadeAs.operatorSource (h : n.MadeAs text .operator) : n.IsSource text := ⟨h.1, .inr h.2⟩

/-- The slots of nodes put into one slot. -/
theorem slots_inSlot {ns : List Node} {sort : Part → Prop} {r : Role}
    (h : ∀ n ∈ ns, n.Made text ∧ sort n.form.part) :
    Form.Slots r sort ((ns.map (·.inSlot r)).map slot) := by
  intro x hx
  simp only [List.map_map, List.mem_map, Function.comp_apply, slot_inSlot] at hx
  obtain ⟨n, hn, rfl⟩ := hx
  exact ⟨rfl, (h n hn).2⟩

theorem made_inSlot {ns : List Node} {r : Role} (h : ∀ n ∈ ns, n.Made text) :
    ∀ n ∈ ns.map (·.inSlot r), n.Made text := by
  intro m hm
  obtain ⟨n, hn, rfl⟩ := List.mem_map.1 hm
  exact (h n hn).inSlot r

end Node

/-! ### What a step yields -/

/-- A token that stands in a text. -/
def Token.Inside (text : Bytes) (t : Token) : Prop :=
  t.pos.offset ≤ text.length ∧ t.stop ≤ text.length

/-- A state whose tokens, read and unread, stand in a text. -/
structure ParserState.Inside (text : Bytes) (s : ParserState) : Prop where
  tokens : ∀ t ∈ s.ending :: s.tokens, t.Inside text
  prevEnd : s.prevEnd ≤ text.length

theorem ParserState.Inside.forward {text : Bytes} {s t : ParserState} (h : s.Inside text)
    (k : s.Forward t) : t.Inside text where
  tokens := by
    intro u hu
    rw [k.ending] at hu
    rcases List.mem_cons.1 hu with rfl | hu
    · exact h.tokens _ List.mem_cons_self
    · exact h.tokens u (List.mem_cons_of_mem _ (k.tokens.subset hu))
  prevEnd := by
    rcases k.prevEnd with hp | ⟨u, hu, hp⟩
    · rw [hp]; exact h.prevEnd
    · rw [hp]; exact (h.tokens u hu).2

namespace Parser

variable {α β : Type} {text : Bytes}

/-- Whatever a step returns on a state in the text has a property. -/
def Yields (text : Bytes) (p : Parser α) (Q : α → Prop) : Prop :=
  ∀ s : ParserState, s.Inside text → ∀ a, (p.run s).1 = some a → Q a

namespace Yields

variable {p : Parser α} {Q : α → Prop} {R : β → Prop}

theorem any : Yields text p fun _ => True := fun _ _ _ _ => trivial

theorem ret {a : α} (h : Q a) : Yields text (pure a) Q := by
  intro s _ b hb
  cases hb
  exact h

theorem look {f : ParserState → α} (h : ∀ s : ParserState, s.Inside text → Q (f s)) :
    Yields text (Parser.look f) Q := by
  intro s hs b hb
  cases hb
  exact h s hs

theorem refuse {fault : Fault} : Yields text (Parser.refuse fault) Q := fun _ _ _ h => nomatch h

theorem fail : Yields text Parser.fail Q := fun _ _ _ h => nomatch h

theorem mono {Q' : α → Prop} (h : Yields text p Q) (k : ∀ a, Q a → Q' a) : Yields text p Q' :=
  fun s hs a ha => k a (h s hs a ha)

theorem bind {f : α → Parser β} (h : Yields text p Q) (k : ∀ a, Q a → Yields text (f a) R) :
    Yields text (p >>= f) R := by
  intro s hs b hb
  have forward := p.forward s
  have hp := h s hs
  rw [run_bind] at hb
  rcases hr : p.run s with ⟨_ | a, t⟩ <;> rw [hr] at hb forward hp
  · cases hb
  · exact k a (hp a rfl) t (hs.forward forward) b hb

/-- A step of which only the effect counts, before another. -/
theorem after {f : α → Parser β} (k : ∀ a, Yields text (f a) R) : Yields text (p >>= f) R :=
  any.bind fun a _ => k a

theorem and {Q' : α → Prop} (h : Yields text p Q) (k : Yields text p Q') :
    Yields text p fun a => Q a ∧ Q' a := fun s hs a ha => ⟨h s hs a ha, k s hs a ha⟩

theorem attempt (h : Yields text p Q) : Yields text (Parser.attempt p) fun o => ∀ a ∈ o, Q a := by
  intro s hs o ho a ha
  cases ho
  exact h s hs a ha

theorem nested {beyond : Parser α} (h : Yields text p Q) (k : Yields text beyond Q) :
    Yields text (Parser.nested p beyond) Q := by
  intro s hs a ha
  have deeper : ParserState.Inside text { s with depth := s.depth + 1 } := ⟨hs.tokens, hs.prevEnd⟩
  simp only [Parser.nested] at ha
  split at ha
  · exact h _ deeper a ha
  · exact k _ (deeper.forward (ParserState.forward_reportNesting _)) a ha

/-- What a round yields: a value that keeps the invariant, or a result. -/
def OfRound (I : α → Prop) (R : β → Prop) : Round α β → Prop
  | .again a => I a
  | .done b => R b

theorem loop {I : α → Prop} {step : α → Parser (Round α β)} {a : α} {bound : Nat} (ha : I a)
    (h : ∀ a, I a → Yields text (step a) (OfRound I R)) :
    Yields text (Parser.loop step bound a) R := by
  intro s hs b hb
  induction bound generalizing a s with
  | zero => cases hb
  | succ bound ih =>
    have forward := (step a).forward s
    have hstep := h a ha s hs
    simp only [Parser.loop, rounds_succ] at hb ih
    rcases hr : (step a).run s with ⟨_ | a' | b', t⟩ <;> rw [hr] at hb forward hstep
    · cases hb
    · exact ih (hstep _ rfl) t (hs.forward forward) hb
    · cases hb
      exact hstep _ rfl

theorem current : Yields text Parser.current (Token.Inside text) :=
  look fun s hs => hs.tokens _ s.current_mem

/-- Whatever is built, if options are plain. -/
theorem buildAny {first : Token} {form : Form} {children : List Node} (hf : first.Inside text)
    (admits : form.Admits (children.map Node.slot)) (below : ∀ c ∈ children, c.Made text)
    (options : form.part = .setting → ∀ c ∈ children, c.Tableless) :
    Yields text (Parser.build first form children) (Node.MadeAs text form.part) := by
  refine look fun s hs => ⟨⟨?_, ?_⟩, rfl⟩
  · exact .mk (Nat.le_max_left _ _) (Nat.max_le.2 ⟨hf.1, hs.prevEnd⟩) admits
      fun c hc => (below c hc).wellFormed
  · exact .mk options fun c hc => (below c hc).options

/-- A node that is no option. -/
theorem build {first : Token} {form : Form} {children : List Node} (hf : first.Inside text)
    (plain : (form.part == .setting) = false) (admits : form.Admits (children.map Node.slot))
    (below : ∀ c ∈ children, c.Made text) :
    Yields text (Parser.build first form children) (Node.MadeAs text form.part) :=
  buildAny hf admits below fun hsetting => absurd hsetting (ne_of_beq_false plain)

theorem tableless {first : Token} {form : Form} {children : List Node}
    (slots : ∀ r, form.expectsTable r = false) (below : ∀ c ∈ children, c.Tableless) :
    Yields text (Parser.build first form children) Node.Tableless := look fun _ _ => .mk slots below

end Yields
end Parser
end KustoFacts
