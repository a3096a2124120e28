import KustoFacts.Proofs.Query.Along
import KustoFacts.Proofs.Query.Leads
import KustoFacts.Proofs.Query.Shape
import KustoFacts.Query.Unquoted

/-!
    What holds of every node when it is built. It begins with a token of the text and ends where a
    token ends; its children stand inside of it, one after another; the names in it, the functions it
    calls and the operators it applies are spelled by tokens; its operands bind as its operator asks;
    and there is room for the operators in it. `Node.Grown` says this of a node and all below it, `Row` of nodes between two offsets.
    `Parser.Leads` is the logic in which the productions are shown to build such nodes: it says what
    holds when a step that begins in a given state returns.

    Levels are counted downwards. At depth `d` there is room for `maxNesting - d` operators inside
    each other, and every operator takes one of these from what stands in it. The sources of a search
    are the exception: they are read at the depth of the search itself. -/

namespace KustoFacts

/-- How the tokens of a text spell a name: as a word, as the value of a string, or as the value of
    whatever stands in brackets after a dot. -/
inductive Tokens.Names (read : Tokens) : Bytes → Prop where
  | word {t : Token} (ht : t ∈ read.tokens) (hkind : t.kind = .word) : Names read t.text
  | quoted {t : Token} (ht : t ∈ read.tokens) (hkind : t.kind = .string) :
      Names read (Unquoted.value t.text)
  | member {dot opening inner closing : Token}
      (htokens : [dot, opening, inner, closing] <:+: read.tokens) (hdot : dot.kind = .dot)
      (hopening : opening.kind = .leftBracket) (hinner : inner.kind ≠ .string)
      (hclosing : closing.kind = .rightBracket) : Names read (Unquoted.value inner.text)

/-- How the tokens of a text spell a call: as a word right before an opening parenthesis. -/
def Tokens.Calls (read : Tokens) (name : Bytes) : Prop :=
  ∃ word paren, [word, paren] <:+: read.tokens ∧ word.kind = .word ∧ word.text = name ∧
    paren.kind = .leftParen

/-- A node that begins with a word that may follow a pipe, and is the operator that this word
    names. -/
structure Node.Operates (n : Node) : Prop where
  word : n.first.kind = .word
  known : n.first.text ∈ pipeOperators
  joins : n.first.text = bytes "join" ∨ n.first.text = bytes "lookup" →
    n.kind = .joinOperator ∨ n.kind = .lookupOperator

/-- How the tokens of a text spell that an operator is applied: its word stands right after a pipe or
    an opening parenthesis. -/
structure Tokens.Applies (read : Tokens) (n : Node) : Prop where
  operates : n.Operates
  after : ∃ before, [before, n.first] <:+: read.tokens ∧
    (before.kind = .pipe ∨ before.kind = .leftParen)

theorem Tokens.Applies.inSlot {read : Tokens} {n : Node} (h : read.Applies n) (r : Role) :
    read.Applies (n.inSlot r) := by
  obtain ⟨⟨word, known, joins⟩, after⟩ := h
  cases n
  exact ⟨⟨word, known, joins⟩, after⟩

namespace Form

/-- What a node of a form tells about the query is spelled in the text, and its operands bind as an
    operator asks. -/
def Spelled (read : Tokens) (form : Form) (children : List Node) : Prop :=
  match form with
  | .nameReference name _ => read.Names name
  | .functionCall name => read.Calls name
  | .pipeExpression => ∀ c ∈ children, c.role = .operator → read.Applies c
  | .namedParameter _ => ∀ c ∈ children, c.span.start < c.span.stop
  | .join kind | .lookup kind => kind ≠ some []
  | .binary _ | .between _ | .unary _ => form.Binds children
  | _ => True

/-- The room that a node leaves for what stands in one of its slots: an operator takes one level,
    but not from the sources of a search. -/
def room (form : Form) (k : Nat) (role : Role) : Nat :=
  match form with
  | .operator _ => if role = .operand then k else k - 1
  | .join _ | .lookup _ | .union => k - 1
  | _ => k

theorem room_mono {form : Form} {role : Role} {k k' : Nat} (h : k ≤ k') :
    form.room k role ≤ form.room k' role := by
  unfold room
  split
  · split <;> omega
  all_goals omega

theorem room_le (form : Form) (k : Nat) (role : Role) : form.room k role ≤ k := by
  unfold room
  split
  · split <;> omega
  all_goals omega

end Form

namespace Node

variable {text : Bytes} {read : Tokens} {k k' lo lo' hi hi' mid : Nat} {n : Node} {ns ms : List Node}

@[simp] theorem span_inSlot (n : Node) (r : Role) : (n.inSlot r).span = n.span := by cases n; rfl

@[simp] theorem role_inSlot (n : Node) (r : Role) : (n.inSlot r).role = r := by cases n; rfl

/-- Nodes that stand between two offsets, one after another. -/
def InOrder : (lo hi : Nat) → List Node → Prop
  | lo, hi, [] => lo ≤ hi
  | lo, hi, n :: ns => lo ≤ n.span.start ∧ n.span.start ≤ n.span.stop ∧ InOrder n.span.stop hi ns

namespace InOrder

theorem le (h : InOrder lo hi ns) : lo ≤ hi := by
  induction ns generalizing lo with
  | nil => exact h
  | cons n ns ih =>
    obtain ⟨hstart, hspan, hrest⟩ := h
    have := ih hrest
    omega

theorem widen (h : InOrder lo hi ns) (hlo : lo' ≤ lo) (hhi : hi ≤ hi') : InOrder lo' hi' ns := by
  induction ns generalizing lo lo' with
  | nil => exact Nat.le_trans hlo (Nat.le_trans h hhi)
  | cons n ns ih =>
    obtain ⟨hstart, hspan, hrest⟩ := h
    exact ⟨Nat.le_trans hlo hstart, hspan, ih hrest (Nat.le_refl _)⟩

theorem append (h : InOrder lo mid ns) (k : InOrder mid hi ms) : InOrder lo hi (ns ++ ms) := by
  induction ns generalizing lo with
  | nil => exact k.widen h (Nat.le_refl _)
  | cons n ns ih =>
    obtain ⟨hstart, hspan, hrest⟩ := h
    exact ⟨hstart, hspan, ih hrest⟩

/-- Each of the nodes stands between the offsets. -/
theorem mem (h : InOrder lo hi ns) : ∀ n ∈ ns, lo ≤ n.span.start ∧ n.span.stop ≤ hi := by
  induction ns generalizing lo with
  | nil => nofun
  | cons m ns ih =>
    obtain ⟨hstart, hspan, hrest⟩ := h
    intro n hn
    rcases List.mem_cons.1 hn with rfl | hn
    · exact ⟨hstart, hrest.le⟩
    · obtain ⟨hlo, hhi⟩ := ih hrest n hn
      exact ⟨by omega, hhi⟩

/-- Each of the nodes ends before all that come after it. -/
theorem pairwise (h : InOrder lo hi ns) : ns.Pairwise fun n m => n.span.stop ≤ m.span.start := by
  induction ns generalizing lo with
  | nil => exact .nil
  | cons n ns ih =>
    obtain ⟨-, -, hrest⟩ := h
    exact .cons (fun m hm => (hrest.mem m hm).1) (ih hrest)

/-- Only spans count. -/
theorem of_spans (h : InOrder lo hi ns) (hspans : ms.map span = ns.map span) : InOrder lo hi ms := by
  induction ns generalizing lo ms with
  | nil =>
    obtain rfl := List.map_eq_nil_iff.1 hspans
    exact h
  | cons n ns ih =>
    obtain ⟨m, ms, rfl, hm, hms⟩ := List.map_eq_cons_iff.1 hspans
    obtain ⟨hstart, hspan, hrest⟩ := h
    exact ⟨hm ▸ hstart, hm ▸ hspan, hm ▸ ih hrest hms⟩

end InOrder

/-- A node as the parser builds it, with room for `k` operators inside each other. -/
inductive Grown (text : Bytes) (read : Tokens) : Nat → Node → Prop where
  | mk {k : Nat} {role : Role} {form : Form} {span : Span} {first : Token} {children : List Node}
      (token : first ∈ read.all) (starts : first.pos.offset = span.start)
      (solid : form ≠ .query → span.start < span.stop) (inside : span.stop ≤ text.length)
      (ordered : InOrder span.start span.stop children) (spelled : form.Spelled read children)
      (operator : form.part = .operator → 0 < k)
      (below : ∀ c ∈ children, c.Grown text read (form.room k c.role)) :
      Grown text read k (.mk role form span first children)

/-- A node without children. -/
theorem Grown.leaf {role : Role} {form : Form} {span : Span} {first : Token}
    (token : first ∈ read.all) (starts : first.pos.offset = span.start)
    (solid : form ≠ .query → span.start < span.stop) (inside : span.stop ≤ text.length)
    (ordered : span.start ≤ span.stop) (spelled : form.Spelled read [])
    (hpart : form.part ≠ .operator) :
    Grown text read k (.mk role form span first []) :=
  .mk token starts solid inside ordered spelled (fun h => absurd h hpart) (List.forall_mem_nil _)

theorem Grown.mono (h : n.Grown text read k) (hk : k ≤ k') : n.Grown text read k' := by
  induction h generalizing k' with
  | mk token starts solid inside ordered spelled operator _ ih =>
    refine .mk token starts solid inside ordered spelled ?_ fun c hc => ih c hc (Form.room_mono hk)
    exact fun hpart => Nat.lt_of_lt_of_le (operator hpart) hk

theorem Grown.inSlot (h : n.Grown text read k) (r : Role) : (n.inSlot r).Grown text read k := by
  cases h with
  | mk token starts solid inside ordered spelled operator below =>
    exact .mk token starts solid inside ordered spelled operator below

theorem Grown.stop_le (h : n.Grown text read k) : n.span.stop ≤ text.length := by
  cases h with
  | mk token starts solid inside ordered spelled operator below => exact inside

theorem Grown.spelled (h : n.Grown text read k) : n.form.Spelled read n.children := by
  cases h with
  | mk token starts solid inside ordered spelled operator below => exact spelled

/-- A node that stands between two offsets and is not empty. -/
structure Lies (text : Bytes) (read : Tokens) (k lo hi : Nat) (n : Node) : Prop where
  grown : n.Grown text read k
  after : lo ≤ n.span.start
  solid : n.span.start < n.span.stop
  before : n.span.stop ≤ hi

theorem Lies.mono (h : n.Lies text read k lo hi) (hk : k ≤ k') : n.Lies text read k' lo hi :=
  { h with grown := h.grown.mono hk }

theorem Lies.lt (h : n.Lies text read k lo hi) : lo < hi :=
  Nat.lt_of_le_of_lt h.after (Nat.lt_of_lt_of_le h.solid h.before)

/-- Nodes between two offsets, one after another. -/
structure Row (text : Bytes) (read : Tokens) (k lo hi : Nat) (ns : List Node) : Prop where
  grown : ∀ n ∈ ns, n.Grown text read k
  ordered : InOrder lo hi ns

theorem Row.nil (h : lo ≤ hi) : Row text read k lo hi [] := ⟨nofun, h⟩

theorem Row.widen (h : Row text read k lo hi ns) (hlo : lo' ≤ lo) (hhi : hi ≤ hi') :
    Row text read k lo' hi' ns := ⟨h.grown, h.ordered.widen hlo hhi⟩

theorem Row.append (h : Row text read k lo mid ns) (hms : Row text read k mid hi ms) :
    Row text read k lo hi (ns ++ ms) :=
  ⟨List.forall_mem_append.2 ⟨h.grown, hms.grown⟩, h.ordered.append hms.ordered⟩

theorem Lies.row (h : n.Lies text read k lo hi) : Row text read k lo hi [n] :=
  ⟨List.forall_mem_singleton.2 h.grown, h.after, Nat.le_of_lt h.solid, h.before⟩

/-- One more node after those found, which are kept latest first. -/
theorem Row.found {found : List Node} (h : Row text read k lo mid found.reverse)
    (hn : Row text read k mid hi [n]) : Row text read k lo hi (n :: found).reverse := by
  rw [List.reverse_cons]
  exact h.append hn

/-- The children of a node of a form, between two offsets and with the room that their slots
    leave. -/
structure Slotted (text : Bytes) (read : Tokens) (form : Form) (k lo hi : Nat)
    (children : List Node) : Prop where
  ordered : InOrder lo hi children
  below : ∀ c ∈ children, c.Grown text read (form.room k c.role)

section Slotted

variable {form : Form} {cs ds : List Node}

theorem Slotted.nil (h : lo ≤ hi) : Slotted text read form k lo hi [] := ⟨h, nofun⟩

theorem Slotted.widen (h : Slotted text read form k lo hi cs) (hlo : lo' ≤ lo) (hhi : hi ≤ hi') :
    Slotted text read form k lo' hi' cs := ⟨h.ordered.widen hlo hhi, h.below⟩

theorem Slotted.append (h : Slotted text read form k lo mid cs)
    (hds : Slotted text read form k mid hi ds) : Slotted text read form k lo hi (cs ++ ds) :=
  ⟨h.ordered.append hds.ordered, List.forall_mem_append.2 ⟨h.below, hds.below⟩⟩

/-- Nodes put into one slot. -/
theorem Row.slotted (h : Row text read k' lo hi ns) (r : Role) (hk : k' ≤ form.room k r) :
    Slotted text read form k lo hi (ns.map (·.inSlot r)) := by
  refine ⟨h.ordered.of_spans ?_, ?_⟩
  · simp [Function.comp_def]
  · intro c hc
    obtain ⟨n, hn, rfl⟩ := List.mem_map.1 hc
    rw [role_inSlot]
    exact ((h.grown n hn).mono hk).inSlot r

/-- Nodes in slots that all leave the same room. -/
theorem Row.filled (h : Row text read k lo hi cs) (hroom : ∀ r, form.room k r = k) :
    Slotted text read form k lo hi cs :=
  ⟨h.ordered, fun c hc => (hroom c.role).symm ▸ h.grown c hc⟩

/-- One node put into a slot, before others. -/
theorem Lies.slotted (h : n.Lies text read k' lo mid) (r : Role) (hk : k' ≤ form.room k r)
    (hlo : lo' ≤ lo) (hcs : Slotted text read form k mid hi cs) :
    Slotted text read form k lo' hi (n.inSlot r :: cs) :=
  ((h.row.slotted r hk).append hcs).widen hlo (Nat.le_refl _)

end Slotted
end Node

/-! ### What a step leads to -/

/-- A state on the way through the tokens of a text, with room for `k` levels more. -/
structure ParserState.Stands (text : Bytes) (read : Tokens) (k : Nat) (s : ParserState) : Prop
    extends s.Along text read where
  room : maxNesting - s.depth = k

theorem ParserState.Stands.forward {text : Bytes} {read : Tokens} {k : Nat} {s t : ParserState}
    (h : s.Stands text read k) (hforward : s.Forward t) : t.Stands text read k ∧ s.Before t := by
  obtain ⟨halong, hbefore⟩ := h.toAlong.moves hforward.moves
  exact ⟨{ halong with room := hforward.depth ▸ h.room }, hbefore⟩

/-- What was consumed before a state ends before the state's token begins. -/
theorem ParserState.Before.le_offset {text : Bytes} {read : Tokens} {k : Nat} {s t : ParserState}
    (h : s.Before t) (ht : t.Stands text read k) : s.prevEnd ≤ t.current.pos.offset :=
  Nat.le_trans h.prevEnd ht.prevEnd

theorem ParserState.Stands.advance {text : Bytes} {read : Tokens} {k : Nat} {s : ParserState}
    (h : s.Stands text read k) : s.advance.Stands text read k := (h.forward s.forward_advance).1

namespace Parser

variable {α β : Type} {text : Bytes} {read : Tokens} {k : Nat} {s : ParserState}

namespace Leads

variable {p : Parser α} {f : α → Parser β} {R : α → ParserState → Prop}
  {Q : β → ParserState → Prop}

theorem bind (hs : s.Stands text read k) (h : Leads p s R)
    (next : ∀ a t, t.Stands text read k → s.Before t → R a t → Leads (f a) t Q) :
    Leads (p >>= f) s Q := by
  intro b u hrun
  have forward := p.forward s
  rw [run_bind] at hrun
  rcases hp : p.run s with ⟨_ | a, t⟩ <;> rw [hp] at hrun forward
  · cases hrun
  · obtain ⟨ht, hbefore⟩ := hs.forward forward
    exact next a t ht hbefore (h a t hp) b u hrun

/-- A step of which only the effect counts, before another. -/
theorem after (hs : s.Stands text read k)
    (next : ∀ a t, t.Stands text read k → s.Before t → Leads (f a) t Q) : Leads (p >>= f) s Q :=
  bind hs (R := fun _ _ => True) (fun _ _ _ => trivial) fun a t ht hbefore _ => next a t ht hbefore

/-- Consuming a token that is not the end. -/
theorem advance {f : Unit → Parser β} (hs : s.Stands text read k)
    (hkind : s.current.kind ≠ .endOfInput)
    (next : s.advance.Stands text read k → s.Before s.advance →
      s.current.pos.offset < s.advance.prevEnd → Leads (f ()) s.advance Q) :
    Leads (Parser.advance >>= f) s Q :=
  next hs.advance hs.before_advance (hs.current_lt hkind)

theorem expect {kind : TokenKind} {f : Unit → Parser β} (hs : s.Stands text read k)
    (hkind : (kind == .endOfInput) = false)
    (next : s.current.kind = kind → s.advance.Stands text read k → s.Before s.advance →
      s.current.pos.offset < s.advance.prevEnd → Leads (f ()) s.advance Q) :
    Leads (Parser.expect kind >>= f) s Q := by
  intro b u hrun
  rw [run_bind] at hrun
  by_cases hcurrent : s.current.kind = kind
  · simp only [Parser.expect, if_pos hcurrent] at hrun
    have hend : s.current.kind ≠ .endOfInput := hcurrent ▸ ne_of_beq_false hkind
    exact next hcurrent hs.advance hs.before_advance (hs.current_lt hend) b u hrun
  · simp only [Parser.expect, if_neg hcurrent] at hrun
    cases hrun

/-- Consuming a token if it has a kind. -/
theorem accept {kind : TokenKind} {f : Bool → Parser β} (hs : s.Stands text read k)
    (yes : s.current.kind = kind → s.advance.Stands text read k → s.Before s.advance →
      Leads (f true) s.advance Q) (no : Leads (f false) s Q) :
    Leads (Parser.accept kind >>= f) s Q := by
  intro b u hrun
  rw [run_accept_bind] at hrun
  split at hrun
  next hkind => exact yes hkind hs.advance hs.before_advance b u hrun
  next => exact no b u hrun

/-- Reading one level deeper, where there is room for one level less. -/
theorem nested {beyond : Parser α} (hs : s.Stands text read k)
    (inside : ∀ k' t, t.Stands text read k' → k = k' + 1 → t.current = s.current → s.Before t →
      Leads p t fun a u => R a { u with depth := u.depth - 1 })
    (outside : ∀ t, t.Stands text read 0 → s.Before t →
      Leads beyond t fun a u => R a { u with depth := u.depth - 1 }) :
    Leads (Parser.nested p beyond) s R := by
  intro a u hrun
  have hdeeper : ParserState.Stands text read (maxNesting - (s.depth + 1))
      { s with depth := s.depth + 1 } := { hs.toAlong with room := rfl }
  have hroom := hs.room
  simp only [Parser.nested] at hrun
  split at hrun
  next hdepth =>
    obtain ⟨ha, rfl⟩ := Prod.mk.inj hrun
    exact inside _ _ hdeeper (by omega) rfl ⟨Nat.le_refl _, Nat.le_refl _⟩ a _ (Prod.ext ha rfl)
  next hdepth =>
    obtain ⟨ha, rfl⟩ := Prod.mk.inj hrun
    have hzero : maxNesting - (s.depth + 1) = 0 := by omega
    obtain ⟨ht, hbefore⟩ := hdeeper.forward (ParserState.forward_reportNesting _)
    exact outside _ (hzero ▸ ht) ⟨hbefore.prevEnd, hbefore.offset⟩ a _ (Prod.ext ha rfl)

theorem loop {I : α → ParserState → Prop} {step : α → Parser (Round α β)} {a : α} {bound : Nat}
    (hs : s.Stands text read k) (ha : I a s)
    (h : ∀ a t, t.Stands text read k → s.Before t → I a t → Leads (step a) t (OfRound I Q)) :
    Leads (Parser.loop step bound a) s Q := by
  -- the state that the rounds began in stays behind all the others
  suffices key : ∀ (bound : Nat) (a : α) (t : ParserState), t.Stands text read k → s.Before t →
      I a t → Leads (Parser.loop step bound a) t Q from key bound a s hs (.refl s) ha
  intro bound
  induction bound with
  | zero => exact fun _ _ _ _ _ => fail
  | succ bound ih =>
    intro a t ht hbefore ha b u hrun
    have forward := (step a).forward t
    have hstep := h a t ht hbefore ha
    simp only [Parser.loop, rounds_succ] at hrun
    rcases hr : (step a).run t with ⟨_ | a' | b', v⟩ <;> rw [hr] at hrun forward
    · cases hrun
    · obtain ⟨hv, hbefore'⟩ := ht.forward forward
      exact ih a' v hv (hbefore.trans hbefore') (hstep _ v hr) b u hrun
    · cases hrun
      exact hstep _ _ hr

end Leads
end Parser
end KustoFacts
