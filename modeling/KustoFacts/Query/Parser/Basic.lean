import KustoFacts.Query.Node

/-!
    The parser's state and its elementary steps. A parser either returns a value or gives up, and
    in both cases it leaves a state behind, so that what was reported and consumed before giving up
    is kept. Every parser carries two laws: it only moves forward (`ParserState.Forward`), and it
    never gives up silently. `Parser.loop` is the one way to repeat a step; its bound is a number of
    rounds that no run on the given tokens can use up. -/

namespace KustoFacts

/-- Where a parser stands. -/
structure ParserState where
  /-- The whole query text. -/
  source : Bytes
  /-- The tokens not yet consumed, without the one that ends the text. -/
  tokens : List Token
  /-- The token that ends the text. -/
  ending : Token
  /-- Where the token consumed last ends. -/
  prevEnd : Nat
  /-- How many expressions, operators and blocks are being read inside each other. -/
  depth : Nat
  /-- Whether nesting has already been reported. -/
  tooDeep : Bool
  /-- What was reported, latest first. -/
  reported : List Diagnostic
  deriving DecidableEq, Repr

namespace ParserState

/-- The token to be consumed next. -/
def current (s : ParserState) : Token := s.tokens.headD s.ending

/-- The token after the current one. -/
def next (s : ParserState) : Token := s.tokens.tail.headD s.ending

/-- The token after the next one. -/
def afterNext (s : ParserState) : Token := s.tokens.tail.tail.headD s.ending

/-- The state after the current token; the token that ends the text stays. -/
def advance (s : ParserState) : ParserState :=
  { s with tokens := s.tokens.tail, prevEnd := s.current.stop }

@[simp] theorem current_advance (s : ParserState) : s.advance.current = s.next := rfl

@[simp] theorem next_advance (s : ParserState) : s.advance.next = s.afterNext := rfl

/-- The state with a fault reported at the current token. -/
def report (s : ParserState) (fault : Fault) : ParserState :=
  let t := s.current
  { s with reported := ⟨t.pos, max t.pos.offset t.stop, fault⟩ :: s.reported }

/-- The state with nesting reported, unless it has been already. -/
def reportNesting (s : ParserState) : ParserState :=
  if s.tooDeep then s else { s.report .nestingTooDeep with tooDeep := true }

/-- The range from a token up to the end of what was consumed. -/
def spanFrom (s : ParserState) (first : Token) : Span :=
  ⟨first.pos.offset, max first.pos.offset s.prevEnd⟩

/-! ### Moving forward -/

/-- Nothing has been reported. -/
def Clean (s : ParserState) : Prop := s.tooDeep = false ∧ s.reported = []

/-- One move after another: a token is consumed, something is reported at the current token, or the
    level changes. Whatever all of these keep is kept by every run of a parser. -/
inductive Moves (s : ParserState) : ParserState → Prop where
  | refl : Moves s s
  | advance {t : ParserState} (h : Moves s t) : Moves s t.advance
  | report {t : ParserState} (h : Moves s t) (fault : Fault) : Moves s (t.report fault)
  | reportNesting {t : ParserState} (h : Moves s t) : Moves s t.reportNesting
  | level {t : ParserState} (h : Moves s t) (depth : Nat) : Moves s { t with depth := depth }

theorem Moves.trans {s t u : ParserState} (h : Moves s t) (k : Moves t u) : Moves s u := by
  induction k with
  | refl => exact h
  | advance _ ih => exact ih.advance
  | report _ fault ih => exact ih.report fault
  | reportNesting _ ih => exact ih.reportNesting
  | level _ depth ih => exact ih.level depth

/-- What reading can do to a state: the text and its end stay, tokens are only consumed, the level
    is what it was before, and reports are only added, one of them when nesting is marked. -/
structure Forward (s t : ParserState) : Prop where
  moves : Moves s t
  source : t.source = s.source
  ending : t.ending = s.ending
  tokens : t.tokens <:+ s.tokens
  prevEnd : t.prevEnd = s.prevEnd ∨ ∃ u ∈ s.ending :: s.tokens, t.prevEnd = u.stop
  depth : t.depth = s.depth
  reported : s.reported <:+ t.reported
  tooDeep : s.tooDeep = true → t.tooDeep = true
  deepReported : t.tooDeep = true → s.tooDeep = true ∨ t.reported ≠ []

namespace Forward

theorem refl (s : ParserState) : Forward s s :=
  ⟨.refl, rfl, rfl, List.suffix_rfl, .inl rfl, rfl, List.suffix_rfl, id, .inl⟩

theorem trans {s t u : ParserState} (h : Forward s t) (k : Forward t u) : Forward s u where
  moves := h.moves.trans k.moves
  source := k.source.trans h.source
  ending := k.ending.trans h.ending
  tokens := k.tokens.trans h.tokens
  prevEnd := by
    rcases k.prevEnd with hk | ⟨v, hv, hk⟩
    · rw [hk]; exact h.prevEnd
    · refine .inr ⟨v, ?_, hk⟩
      rw [h.ending] at hv
      rcases List.mem_cons.1 hv with rfl | hv
      · exact List.mem_cons_self
      · exact List.mem_cons_of_mem _ (h.tokens.subset hv)
  depth := k.depth.trans h.depth
  reported := h.reported.trans k.reported
  tooDeep := fun hs => k.tooDeep (h.tooDeep hs)
  deepReported := fun hu => by
    rcases k.deepReported hu with ht | hr
    · rcases h.deepReported ht with hs | hr
      · exact .inl hs
      · exact .inr fun hn => hr (List.suffix_nil.1 (hn ▸ k.reported))
    · exact .inr hr

/-- A state from which nothing was reported has nothing reported itself. -/
theorem clean {s t : ParserState} (h : Forward s t) (ht : t.Clean) : s.Clean := by
  refine ⟨?_, List.suffix_nil.1 (ht.2 ▸ h.reported)⟩
  cases hs : s.tooDeep with
  | false => rfl
  | true => exact absurd (h.tooDeep hs) (by simp [ht.1])

end Forward

theorem current_mem (s : ParserState) : s.current ∈ s.ending :: s.tokens := by
  unfold current
  cases s.tokens <;> simp

theorem next_mem (s : ParserState) : s.next ∈ s.ending :: s.tokens := by
  unfold next
  rcases s.tokens with _ | ⟨t, _ | ⟨u, ts⟩⟩ <;> simp

theorem forward_advance (s : ParserState) : Forward s s.advance :=
  { Forward.refl s with
    moves := .advance .refl
    tokens := List.tail_suffix _
    prevEnd := .inr ⟨s.current, s.current_mem, rfl⟩ }

theorem forward_report (s : ParserState) (fault : Fault) : Forward s (s.report fault) :=
  { Forward.refl s with
    moves := .report .refl fault
    reported := List.suffix_cons _ _
    deepReported := .inl }

theorem not_clean_report (s : ParserState) (fault : Fault) : ¬(s.report fault).Clean := by
  simp [Clean, report]

theorem forward_reportNesting (s : ParserState) : Forward s s.reportNesting := by
  have moves : Moves s s.reportNesting := .reportNesting .refl
  by_cases h : s.tooDeep = true
  · rw [reportNesting, if_pos h]
    exact Forward.refl s
  · rw [reportNesting, if_neg h] at moves ⊢
    exact { forward_report s .nestingTooDeep with
      moves := moves
      tooDeep := fun _ => rfl
      deepReported := fun _ => .inr (by simp [report]) }

theorem not_clean_reportNesting (s : ParserState) : ¬s.reportNesting.Clean := by
  unfold reportNesting
  split <;> simp_all [Clean]

/-- Reading one level deeper and coming back. -/
theorem forward_nested {s t : ParserState} (h : Forward { s with depth := s.depth + 1 } t) :
    Forward s { t with depth := t.depth - 1 } :=
  { h with
    moves := .level (.trans (.level .refl _) h.moves) _
    depth := by simp [h.depth] }

end ParserState

/-- A step that returns a value or gives up, and leaves a state behind either way. It only moves
    forward, and when it gives up something has been reported. -/
structure Parser (α : Type) where
  run : ParserState → Option α × ParserState
  forward : ∀ s, ParserState.Forward s (run s).2
  honest : ∀ s, (run s).1 = none → ¬(run s).2.Clean

namespace Parser

/-- A step that reads something off the state and changes nothing. -/
@[inline] def look {α : Type} (f : ParserState → α) : Parser α where
  run s := (some (f s), s)
  forward s := .refl s
  honest _ h := nomatch h

/-- The step that returns a value and changes nothing. -/
@[inline] def ret {α : Type} (a : α) : Parser α := look fun _ => a

/-- One step after another; the second is skipped when the first gives up. -/
@[inline] def andThen {α β : Type} (p : Parser α) (f : α → Parser β) : Parser β where
  run s :=
    match p.run s with
    | (some a, s) => (f a).run s
    | (none, s) => (none, s)
  forward s := by
    have hp := p.forward s
    rcases h : p.run s with ⟨_ | a, t⟩ <;> rw [h] at hp
    · exact hp
    · exact hp.trans ((f a).forward t)
  honest s := by
    have hp := p.honest s
    rcases h : p.run s with ⟨_ | a, t⟩ <;> rw [h] at hp
    · simpa using hp
    · exact (f a).honest t

instance : Monad Parser where
  pure := ret
  bind := andThen

/-- Giving up because reading would go too deep. -/
def fail {α : Type} : Parser α where
  run s := (none, s.reportNesting)
  forward s := s.forward_reportNesting
  honest s _ := s.not_clean_reportNesting

/-- The state a parser stands in. -/
def state : Parser ParserState := look fun s => s

/-- The token to be consumed next. -/
def current : Parser Token := look ParserState.current

/-- The token after the current one. -/
def peek : Parser Token := look ParserState.next

/-- The token after the next one. -/
def peekSecond : Parser Token := look ParserState.afterNext

/-- Consumes the current token. -/
def advance : Parser Unit where
  run s := (some (), s.advance)
  forward s := s.forward_advance
  honest _ h := nomatch h

/-- Reports a fault at the current token and goes on. -/
def report (fault : Fault) : Parser Unit where
  run s := (some (), s.report fault)
  forward s := s.forward_report fault
  honest _ h := nomatch h

/-- Reports a fault at the current token and gives up. -/
def refuse {α : Type} (fault : Fault) : Parser α where
  run s := (none, s.report fault)
  forward s := s.forward_report fault
  honest s _ := s.not_clean_report fault

/-- Whether the current token has a given kind. -/
def sees (kind : TokenKind) : Parser Bool := look fun s => s.current.kind = kind

/-- Whether the current token is a given word. -/
def seesWord (word : Bytes) : Parser Bool := look fun s => s.current.isWord word

/-- Consumes the current token if it has a given kind, and says whether it had. -/
def accept (kind : TokenKind) : Parser Bool where
  run s := if s.current.kind = kind then (some true, s.advance) else (some false, s)
  forward s := by
    split
    · exact s.forward_advance
    · exact .refl s
  honest s h := by
    split at h <;> cases h

/-- Consumes the current token if it is a given word, and says whether it was. -/
def acceptWord (word : Bytes) : Parser Bool where
  run s := if s.current.isWord word then (some true, s.advance) else (some false, s)
  forward s := by
    split
    · exact s.forward_advance
    · exact .refl s
  honest s h := by
    split at h <;> cases h

/-- Consumes a token of a given kind, and gives up with a report at any other. -/
def expect (kind : TokenKind) : Parser Unit where
  run s :=
    if s.current.kind = kind then (some (), s.advance) else (none, s.report (.expectedToken kind))
  forward s := by
    split
    · exact s.forward_advance
    · exact s.forward_report _
  honest s h := by
    split at h
    · cases h
    · rw [if_neg ‹_›]; exact s.not_clean_report _

/-- A step whose giving up is a value. -/
def attempt {α : Type} (p : Parser α) : Parser (Option α) where
  run s :=
    let (result, s) := p.run s
    (some result, s)
  forward s := p.forward s
  honest _ h := nomatch h

/-- A node of a given form from a token up to what was consumed. -/
def build (first : Token) (form : Form) (children : List Node) : Parser Node :=
  look fun s => .mk .none form (s.spanFrom first) first children

/-- Reads one level deeper. Beyond the limit nesting is reported once, and `beyond` is read
    instead. -/
def nested {α : Type} (inside beyond : Parser α) : Parser α where
  run s :=
    let s := { s with depth := s.depth + 1 }
    let (result, s) := if s.depth ≤ maxNesting then inside.run s else beyond.run s.reportNesting
    (result, { s with depth := s.depth - 1 })
  forward s := by
    refine ParserState.forward_nested ?_
    split
    · exact inside.forward _
    · exact (ParserState.forward_reportNesting _).trans (beyond.forward _)
  honest s h := by
    simp only at h ⊢
    split at h
    · rw [if_pos ‹_›]; exact inside.honest _ h
    · rw [if_neg ‹_›]; exact beyond.honest _ h

/-- What a round of a loop decides: to go on from a value, or to stop with a result. -/
inductive Round (α β : Type) where
  | again (a : α)
  | done (b : β)

/-- Repeats a step on a state until it stops, for at most `bound` rounds. -/
def rounds {α β : Type} (step : α → Parser (Round α β)) :
    (bound : Nat) → α → ParserState → Option β × ParserState
  | 0, _, s => fail.run s
  | bound + 1, a, s =>
    match (step a).run s with
    | (some (.again a), s) => rounds step bound a s
    | (some (.done b), s) => (some b, s)
    | (none, s) => (none, s)

theorem rounds_succ {α β : Type} (step : α → Parser (Round α β)) (bound : Nat) (a : α)
    (s : ParserState) :
    rounds step (bound + 1) a s =
      match (step a).run s with
      | (some (.again a), s) => rounds step bound a s
      | (some (.done b), s) => (some b, s)
      | (none, s) => (none, s) := rfl

theorem forward_rounds {α β : Type} (step : α → Parser (Round α β)) :
    ∀ (bound : Nat) (a : α) (s : ParserState), s.Forward (rounds step bound a s).2
  | 0, _, s => fail.forward s
  | bound + 1, a, s => by
    have hstep := (step a).forward s
    unfold rounds
    rcases h : (step a).run s with ⟨_ | _ | _, t⟩ <;> rw [h] at hstep
    · exact hstep
    · exact hstep.trans (forward_rounds step bound _ t)
    · exact hstep

theorem honest_rounds {α β : Type} (step : α → Parser (Round α β)) :
    ∀ (bound : Nat) (a : α) (s : ParserState), (rounds step bound a s).1 = none →
      ¬(rounds step bound a s).2.Clean
  | 0, _, s => fail.honest s
  | bound + 1, a, s => by
    have hstep := (step a).honest s
    unfold rounds
    rcases h : (step a).run s with ⟨_ | _ | _, t⟩ <;> rw [h] at hstep
    · simpa using hstep
    · exact honest_rounds step bound _ t
    · simp

/-- Repeats a step until it stops, for at most `bound` rounds. -/
def loop {α β : Type} (step : α → Parser (Round α β)) (bound : Nat) (a : α) : Parser β where
  run := rounds step bound a
  forward := forward_rounds step bound a
  honest := honest_rounds step bound a

/-! ### Running a step

What each elementary step does to the steps after it. -/

section Running

variable {α β : Type} (k : α → Parser β) (s : ParserState)

theorem run_bind (p : Parser α) :
    (p >>= k).run s =
      match p.run s with
      | (some a, t) => (k a).run t
      | (none, t) => (none, t) := rfl

@[simp] theorem run_pure (a : α) : (pure a : Parser α).run s = (some a, s) := rfl

@[simp] theorem run_pure_bind (a : α) : (pure a >>= k).run s = (k a).run s := rfl

@[simp] theorem run_state_bind (k : ParserState → Parser β) :
    (state >>= k).run s = (k s).run s := rfl

@[simp] theorem run_current_bind (k : Token → Parser β) :
    (current >>= k).run s = (k s.current).run s := rfl

@[simp] theorem run_peek_bind (k : Token → Parser β) : (peek >>= k).run s = (k s.next).run s := rfl

@[simp] theorem run_peekSecond_bind (k : Token → Parser β) :
    (peekSecond >>= k).run s = (k s.afterNext).run s := rfl

@[simp] theorem run_sees_bind (kind : TokenKind) (k : Bool → Parser β) :
    (sees kind >>= k).run s = (k (s.current.kind = kind)).run s := rfl

@[simp] theorem run_seesWord_bind (word : Bytes) (k : Bool → Parser β) :
    (seesWord word >>= k).run s = (k (s.current.isWord word)).run s := rfl

@[simp] theorem run_advance_bind (k : Unit → Parser β) :
    (advance >>= k).run s = (k ()).run s.advance := rfl

@[simp] theorem run_build (first : Token) (form : Form) (children : List Node) :
    (build first form children).run s =
      (some (.mk .none form (s.spanFrom first) first children), s) := rfl

@[simp] theorem run_build_bind (first : Token) (form : Form) (children : List Node)
    (k : Node → Parser β) :
    (build first form children >>= k).run s =
      (k (.mk .none form (s.spanFrom first) first children)).run s := rfl

theorem run_accept_bind (kind : TokenKind) (k : Bool → Parser β) :
    (accept kind >>= k).run s =
      if s.current.kind = kind then (k true).run s.advance else (k false).run s := by
  by_cases h : s.current.kind = kind
  · simp only [run_bind, accept, if_pos h]
  · simp only [run_bind, accept, if_neg h]

@[simp] theorem run_attempt_bind (p : Parser α) (k : Option α → Parser β) :
    (attempt p >>= k).run s = (k (p.run s).1).run (p.run s).2 := rfl

@[simp] theorem run_refuse (fault : Fault) :
    (refuse fault : Parser α).run s = (none, s.report fault) := rfl

@[simp] theorem run_refuse_bind (fault : Fault) :
    (refuse fault >>= k).run s = (none, s.report fault) := rfl

end Running

/-! ### Items and names

What is read in rounds is kept latest first. -/

/-- One round of reading items with a comma between each two. -/
def commaRound (item : Parser Node) (found : List Node) :
    Parser (Round (List Node) (List Node)) := do
  let node ← item
  if ← accept .comma then return .again (node :: found)
  return .done (node :: found).reverse

/-- One item or more, with a comma between each two. -/
def itemsByComma (bound : Nat) (item : Parser Node) : Parser (List Node) :=
  loop (commaRound item) bound []

/-- One round of reading items up to a closing token. -/
def untilRound (close : TokenKind) (item : Parser Node) (found : List Node) :
    Parser (Round (List Node) (List Node)) := do
  if ← sees close then return .done found.reverse
  commaRound item found

/-- Items up to a closing token, with a comma between each two; the closing token is left. -/
def itemsUntil (bound : Nat) (close : TokenKind) (item : Parser Node) : Parser (List Node) :=
  loop (untilRound close item) bound []

/-- One round of reading names after dots. -/
def dottedRound (name : Bytes) : Parser (Round Bytes Bytes) := do
  if (← sees .dot) && (← peek).kind = .word then
    advance
    let part ← current
    advance
    return .again (name ++ byteOf '.' :: part.text)
  return .done name

/-- Names after dots, appended to a name. -/
def dottedName (bound : Nat) (name : Bytes) : Parser Bytes := loop dottedRound bound name

end Parser
end KustoFacts
