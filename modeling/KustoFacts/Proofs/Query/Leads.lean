import KustoFacts.Query.Parser.Statement
import Mathlib.Logic.Basic

/-!
    What a step leads to when it returns. These lemmas follow a step through the steps it is made of,
    whatever state it begins in: what it looks at, what it builds, and what it asks before it
    decides. -/

namespace KustoFacts.Parser

variable {α β : Type} {g : Grammar} {s : ParserState}

/-- What holds of the result and the state when a step from a state returns. -/
def Leads (p : Parser α) (s : ParserState) (Q : α → ParserState → Prop) : Prop :=
  ∀ a t, p.run s = (some a, t) → Q a t

namespace Leads

variable {p : Parser α} {f : α → Parser β} {R : α → ParserState → Prop}
  {Q : β → ParserState → Prop}

theorem pure {b : β} (h : Q b s) : Leads (Pure.pure b) s Q := by
  intro a t hrun
  cases hrun
  exact h

theorem refuse {fault : Fault} : Leads (Parser.refuse fault) s Q := nofun

theorem fail : Leads Parser.fail s Q := nofun

theorem mono (h : Leads p s R) {R' : α → ParserState → Prop} (k : ∀ a t, R a t → R' a t) :
    Leads p s R' := fun a t hrun => k a t (h a t hrun)

/-- Looking at the state. -/
theorem look {g : ParserState → α} (h : Leads (f (g s)) s Q) : Leads (Parser.look g >>= f) s Q := h

/-- A step of which nothing counts, before another. -/
theorem anyhow (next : ∀ a t, Leads (f a) t Q) : Leads (p >>= f) s Q := by
  intro b u hrun
  rw [run_bind] at hrun
  rcases hp : p.run s with ⟨_ | a, t⟩ <;> rw [hp] at hrun
  · cases hrun
  · exact next a t b u hrun

/-- What both is led to. -/
theorem and {R' : α → ParserState → Prop} (h : Leads p s R) (k : Leads p s R') :
    Leads p s fun a t => R a t ∧ R' a t := fun a t hrun => ⟨h a t hrun, k a t hrun⟩

theorem build {first : Token} {form : Form} {children : List Node}
    {Q : Node → ParserState → Prop}
    (h : Q (.mk .none form (s.spanFrom first) first children) s) :
    Leads (Parser.build first form children) s Q := by
  intro n t hrun
  cases hrun
  exact h

/-- Giving up before another step. -/
theorem refuse_bind {fault : Fault} : Leads (Parser.refuse fault >>= f) s Q := nofun

/-- Consuming whatever comes. -/
theorem skip {f : Unit → Parser β} (h : Leads (f ()) s.advance Q) :
    Leads (Parser.advance >>= f) s Q := h

theorem attempt (h : Leads p s R) : Leads (Parser.attempt p) s fun o t => ∀ a ∈ o, R a t := by
  intro o t hrun a ha
  cases hrun
  exact h a _ (Prod.ext ha rfl)

/-- What a round leads to: a value that keeps the invariant, or a result. -/
def OfRound (I : α → ParserState → Prop) (Q : β → ParserState → Prop) :
    Round α β → ParserState → Prop
  | .again a, t => I a t
  | .done b, t => Q b t

end Leads

/-! ### What starts -/

theorem kind_of_isClause {u next : Token} (h : isClause u next = true) : u.kind = .word := by
  refine not_not.1 fun hne => ?_
  simp [isClause, hne] at h

theorem word_of_startsLeading {u next : Token} (h : startsLeading u next = true) :
    u.kind = .word := by
  refine not_not.1 fun hne => ?_
  simp [startsLeading, hne] at h

/-- A step that looks whether something starts. -/
def Asks (p : Parser Bool) (seen : ParserState → Prop) : Prop :=
  ∀ s, ∃ x, p.run s = (some x, s) ∧ (x = true → seen s)

theorem asks_startsSubquery : Asks startsSubquery fun s => s.current.kind = .leftParen := by
  intro s
  simp only [startsSubquery, run_current_bind, run_peek_bind, run_peekSecond_bind]
  split
  · exact ⟨false, rfl, nofun⟩
  next hparen =>
    simp only [Bool.or_eq_true, decide_eq_true_eq, ne_eq, not_or, not_not] at hparen
    split
    all_goals exact ⟨_, rfl, fun _ => hparen.1.1⟩

theorem asks_startsParam (op : Bytes) : Asks (startsParam op) fun s => s.current.kind = .word := by
  intro s
  simp only [startsParam, run_current_bind, run_peek_bind]
  split
  next hhint =>
    simp only [Bool.and_eq_true] at hhint
    exact ⟨true, rfl, fun _ => Token.kind_of_isWord hhint.1⟩
  split
  · exact ⟨false, rfl, nofun⟩
  next hword =>
    simp only [Bool.or_eq_true, decide_eq_true_eq, ne_eq, not_or, not_not] at hword
    split
    all_goals exact ⟨_, rfl, fun _ => hword.1⟩

theorem asks_startsFunction : Asks startsFunction fun _ => True := by
  intro s
  simp only [startsFunction, run_current_bind, run_peek_bind, run_peekSecond_bind]
  split
  · exact ⟨_, rfl, fun _ => trivial⟩
  split
  all_goals exact ⟨_, rfl, fun _ => trivial⟩

/-! ### Where statements stand -/

/-- A statement stands from where it begins up to what has been consumed. -/
def Spans (p : Parser Node) (s : ParserState) : Prop :=
  Leads p s fun n t => n.span = t.spanFrom s.current

theorem spans_statement : Spans (statement g) s := by
  refine .look (.look ?_)
  split
  · refine .look (.anyhow fun _ _ => .anyhow fun declared _ => .anyhow fun _ _ => .anyhow fun _ _ => ?_)
    split
    · exact .anyhow fun value _ => .build rfl
    · exact .anyhow fun value _ => .build rfl
  split
  · exact .look (.anyhow fun _ _ => .look (.anyhow fun _ _ => .anyhow fun _ _ => .anyhow fun _ _ =>
      .build rfl))
  split
  · exact .look (.anyhow fun _ _ => .anyhow fun _ _ => .anyhow fun _ _ => .build rfl)
  split
  · exact .look (.anyhow fun _ _ => .anyhow fun _ _ => .anyhow fun _ _ => .anyhow fun _ _ =>
      .anyhow fun _ _ => .build rfl)
  · exact .anyhow fun _ _ => .build rfl

end KustoFacts.Parser
