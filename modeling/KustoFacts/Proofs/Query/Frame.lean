import KustoFacts.Proofs.Query.Outline
import KustoFacts.Query.Parser.Goal
import Mathlib.Data.List.Forall2

/-!
    Reading the same tokens inside a longer text. A frame fixes a short text and a long one that
    contains it: the short text from offset `a` on stands in the long one from offset `b` on, and
    after the tokens of the short text the long one goes on with the tokens `rest`, of which the
    first, if there is one, is a semicolon or a pipe. About what stands before the tokens of the
    short text there may have been reports in the long one.

    `Frame.Alike` relates a state in the short text to the state in the long one that stands at the
    same token. `Frame.Agrees` says that a step in the long text does what a step in the short text
    does, as far as the short one reports nothing: it returns a like value and leaves alike states.
    A step that may go on at a pipe agrees only when the short text does not end at one, and a step
    that may go on at any stop only when it does not end there at all. -/

namespace KustoFacts

/-- The same token at places that count from `a` and from `b`. -/
structure Token.Same (a b : Nat) (t u : Token) : Prop where
  kind : u.kind = t.kind
  text : u.text = t.text
  offset : u.pos.offset + a = t.pos.offset + b
  stop : u.stop + a = t.stop + b

/-- A short text inside a long one. -/
structure Frame where
  a : Nat
  b : Nat
  short : Bytes
  long : Bytes
  /-- What follows in the long text. -/
  rest : List Token
  shared : short.drop a <+: long.drop b
  stops : ∀ t, rest.head? = some t → t.kind = .semicolon ∨ t.kind = .pipe
  /-- What has been reported about the long text before. -/
  reported : List Diagnostic := []
  /-- Whether nesting has been reported there. -/
  tooDeep : Bool := false

/-- The tokens at which the short text can end. -/
def TokenKind.isStop (k : TokenKind) : Bool := k = .endOfInput || k = .semicolon || k = .pipe

theorem TokenKind.eq_of_isStop {k : TokenKind} (h : k.isStop = true) :
    k = .endOfInput ∨ k = .semicolon ∨ k = .pipe := by
  simpa [isStop, or_assoc] using h

namespace Frame

variable (F : Frame)

/-- What the two texts show at one place: the same token, or the end of the short text and a stop of
    the long one. -/
def Seen (t u : Token) : Prop :=
  t.Same F.a F.b u ∨ t.kind = .endOfInput ∧ u.kind.isStop = true

/-- Two states that stand at the same token of the two texts. -/
structure Alike (s u : ParserState) : Prop where
  source : s.source = F.short
  source' : u.source = F.long
  tokens : ∃ ts, u.tokens = ts ++ F.rest ∧ List.Forall₂ (Token.Same F.a F.b) s.tokens ts
  inside : ∀ t ∈ s.tokens, t.kind ≠ .endOfInput ∧ F.a ≤ t.pos.offset ∧
    t.pos.offset ≤ F.short.length ∧ t.stop ≤ F.short.length
  ending : s.ending.kind = .endOfInput
  ending' : u.ending.kind = .endOfInput
  depth : u.depth = s.depth
  clean : s.Clean
  kept : u.reported = F.reported ∧ u.tooDeep = F.tooDeep

/-- Two alike states after a token has been consumed, with fewer than `n` tokens left. -/
structure Touching (n : Nat) (s u : ParserState) : Prop extends F.Alike s u where
  joined : u.prevEnd + F.a = s.prevEnd + F.b
  within : s.prevEnd ≤ F.short.length
  fewer : s.tokens.length < n

/-- How far a step may read for the two texts to agree on it. -/
inductive Limit where
  /-- Up to the end of the short text. -/
  | anywhere
  /-- Up to the end of the short text, unless the long one goes on with a pipe there. -/
  | beforePipe
  /-- Not up to the end of the short text. -/
  | beforeEnd
  deriving DecidableEq

/-- Whether the long text goes on with a pipe. -/
def Piped : Prop := ∃ t, F.rest.head? = some t ∧ t.kind = .pipe

/-- A limit has been kept to. -/
def Within (limit : Limit) (t : ParserState) : Prop :=
  match limit with
  | .anywhere => True
  | .beforePipe => F.Piped → t.tokens ≠ []
  | .beforeEnd => t.tokens ≠ []

/-- A step on the long text does what a step on the short text does, within a limit. -/
def Agrees {α β : Type} (limit : Limit) (Q : α → β → ParserState → ParserState → Prop)
    (r : Option α × ParserState) (q : Option β × ParserState) : Prop :=
  r.2.Clean → F.Within limit r.2 → ∃ x y, r.1 = some x ∧ q.1 = some y ∧ Q x y r.2 q.2

/-- Nothing has been reported about the long text before. -/
def Fresh : Prop := F.reported = [] ∧ F.tooDeep = false

/-- Like nodes that are spelled the same in the two texts. -/
structure Copy (x y : Node) : Prop where
  like : x.Like y
  text : x.text F.short = y.text F.long

/-- Like nodes, and touching states. -/
def Tree (n : Nat) (x y : Node) (s u : ParserState) : Prop := x.Like y ∧ F.Touching n s u

/-- Like lists of nodes, and touching states. -/
def Trees (n : Nat) (xs ys : List Node) (s u : ParserState) : Prop :=
  Node.LikeAll xs ys ∧ F.Touching n s u

/-- Equal values, and touching states. -/
def Equal {α : Type} (n : Nat) (x y : α) (s u : ParserState) : Prop := x = y ∧ F.Touching n s u

end Frame

/-! ### States -/

namespace ParserState

theorem tokens_ne_nil {s : ParserState} (h : s.ending.kind = .endOfInput)
    (hk : s.current.kind ≠ .endOfInput) : s.tokens ≠ [] := by
  intro hs
  rw [current, hs] at hk
  exact hk h

end ParserState

namespace Frame

variable {F : Frame} {s u : ParserState} {n m : Nat}

theorem slice_eq {x y x' y' : Nat} (hx : F.a ≤ x) (hy : y ≤ F.short.length)
    (hx' : x' + F.a = x + F.b) (hy' : y' + F.a = y + F.b) :
    F.short.slice x y = F.long.slice x' y' := by
  obtain ⟨tail, htail⟩ := F.shared
  obtain ⟨k, rfl⟩ := Nat.exists_eq_add_of_le hx
  have hlong : F.long.drop x' = (F.short.drop F.a ++ tail).drop k := by
    rw [htail, List.drop_drop]; congr 1; omega
  have hlen : y' - x' = y - (F.a + k) := by omega
  rw [Bytes.slice, Bytes.slice, hlong, hlen, ← List.drop_drop]
  by_cases hk : k ≤ (F.short.drop F.a).length
  · rw [List.drop_append_of_le_length hk, List.take_append_of_le_length]
    simp only [List.length_drop]; omega
  · rw [List.length_drop] at hk
    have h0 : y - (F.a + k) = 0 := by omega
    rw [h0, List.take_zero, List.take_zero]

theorem Alike.clean' (h : F.Alike s u) (hF : F.Fresh) : u.Clean :=
  ⟨h.kept.2.trans hF.2, h.kept.1.trans hF.1⟩

/-- Copies are like each other. -/
theorem Copy.likeAll {xs ys : List Node} (h : List.Forall₂ F.Copy xs ys) :
    Node.LikeAll xs ys := by
  induction h with
  | nil => exact .nil
  | cons hxy _ ih => exact .cons hxy.like ih

theorem within_of_forward {limit : Limit} {t : ParserState} (h : s.Forward t)
    (ht : F.Within limit t) : F.Within limit s := by
  have ne_nil (hn : t.tokens ≠ []) : s.tokens ≠ [] :=
    fun hs => hn (List.suffix_nil.1 (hs ▸ h.tokens))
  cases limit with
  | anywhere => trivial
  | beforePipe => exact fun hp => ne_nil (ht hp)
  | beforeEnd => exact ne_nil ht

/-- At a limit a pipe is not taken for the end of the short text. -/
theorem Within.ne_nil {limit : Limit} (hl : limit ≠ .anywhere) (h : F.Within limit s)
    (hp : F.Piped) : s.tokens ≠ [] := by
  cases limit with
  | anywhere => exact absurd rfl hl
  | beforePipe => exact h hp
  | beforeEnd => exact h

theorem Touching.mono (h : F.Touching n s u) (hn : n ≤ m) : F.Touching m s u :=
  { h with fewer := Nat.lt_of_lt_of_le h.fewer hn }

namespace Alike

variable (h : F.Alike s u)
include h

/-- At the end of the short text the long one stops. -/
theorem isStop_of_nil (hs : s.tokens = []) : u.current.kind.isStop = true := by
  obtain ⟨ts, hu, hts⟩ := h.tokens
  rw [hs, List.forall₂_nil_left_iff] at hts
  subst hts
  rw [ParserState.current, hu, List.nil_append]
  rcases hr : F.rest with _ | ⟨t, rest⟩
  · simp [h.ending', TokenKind.isStop]
  · rcases F.stops t (by rw [hr]; rfl) with hk | hk <;> simp [hk, TokenKind.isStop]

theorem current_of_nil (hs : s.tokens = []) : s.current.kind = .endOfInput := by
  rw [ParserState.current, hs]; exact h.ending

theorem current_ne_end (hs : s.tokens ≠ []) : s.current.kind ≠ .endOfInput := by
  rcases hts : s.tokens with _ | ⟨t, ts⟩
  · exact absurd hts hs
  · rw [ParserState.current, hts]
    exact (h.inside t (by rw [hts]; exact List.mem_cons_self)).1

/-- Before its end the short text and the long one have the same token. -/
theorem same (hs : s.tokens ≠ []) : s.current.Same F.a F.b u.current := by
  obtain ⟨ts, hu, hts⟩ := h.tokens
  rw [ParserState.current, ParserState.current, hu]
  rcases hst : s.tokens with _ | ⟨t, s'⟩
  · exact absurd hst hs
  · rw [hst] at hts
    obtain ⟨v, vs, hv, -, rfl⟩ := List.forall₂_cons_left_iff.1 hts
    exact hv

theorem inside_current (hs : s.tokens ≠ []) : F.a ≤ s.current.pos.offset ∧
    s.current.pos.offset ≤ F.short.length ∧ s.current.stop ≤ F.short.length := by
  rcases hst : s.tokens with _ | ⟨t, ts⟩
  · exact absurd hst hs
  · rw [ParserState.current, hst]
    exact (h.inside t (by rw [hst]; exact List.mem_cons_self)).2

theorem outline (hs : s.tokens ≠ []) : s.current.outline = u.current.outline := by
  have same := h.same hs
  rw [Token.outline, Token.outline, same.kind, same.text]

/-- Consuming a token of the short text. -/
theorem advance (hs : s.tokens ≠ []) (hn : s.tokens.length ≤ n) :
    F.Touching n s.advance u.advance := by
  have same := h.same hs
  obtain ⟨ts, hu, hts⟩ := h.tokens
  rcases hst : s.tokens with _ | ⟨t, s'⟩
  · exact absurd hst hs
  rw [hst] at hts
  obtain ⟨v, vs, hv, hvs, rfl⟩ := List.forall₂_cons_left_iff.1 hts
  refine ⟨⟨h.source, h.source', ⟨vs, ?_, ?_⟩, ?_, h.ending, h.ending', h.depth, h.clean, h.kept⟩,
    same.stop, (h.inside_current hs).2.2, ?_⟩
  · simp [ParserState.advance, hu]
  · simpa [ParserState.advance, hst] using hvs
  · intro w hw
    exact h.inside w (List.mem_of_mem_tail hw)
  · simp only [ParserState.advance, hst, List.tail_cons]
    simp only [hst, List.length_cons] at hn
    omega

theorem look : F.Seen s.current u.current := by
  by_cases hs : s.tokens = []
  · exact .inr ⟨h.current_of_nil hs, h.isStop_of_nil hs⟩
  · exact .inl (h.same hs)

theorem look_next (hs : s.tokens ≠ []) : F.Seen s.next u.next :=
  (h.advance hs (Nat.le_refl _)).toAlike.look

theorem look_afterNext (hs : s.tokens.tail ≠ []) : F.Seen s.afterNext u.afterNext := by
  have hs' : s.tokens ≠ [] := fun he => hs (by rw [he]; rfl)
  exact (h.advance hs' (Nat.le_refl _)).toAlike.look_next hs

/-- A kind that is no stop is seen in both texts or in none. -/
theorem kind_iff {k : TokenKind} (hk : k.isStop = false) :
    s.current.kind = k ↔ u.current.kind = k := by
  by_cases hs : s.tokens = []
  · constructor
    · intro hc
      rw [h.current_of_nil hs] at hc
      simp [← hc, TokenKind.isStop] at hk
    · intro hc
      have := h.isStop_of_nil hs
      rw [hc, hk] at this
      cases this
  · rw [(h.same hs).kind]

/-- The same for the token after the current one. -/
theorem next_kind_iff (hs : s.tokens ≠ []) {k : TokenKind} (hk : k.isStop = false) :
    s.next.kind = k ↔ u.next.kind = k :=
  (h.advance hs (Nat.le_refl _)).toAlike.kind_iff hk

theorem ne_nil_of_kind {k : TokenKind} (hk : k.isStop = false) (hc : s.current.kind = k) :
    s.tokens ≠ [] := by
  refine ParserState.tokens_ne_nil h.ending ?_
  intro he
  rw [← hc, he] at hk
  cases hk

theorem isWord_eq (w : Bytes) : s.current.isWord w = u.current.isWord w := by
  rcases h.look with same | ⟨hs, hu⟩
  · rw [Token.isWord, Token.isWord, same.kind, same.text]
  · rcases TokenKind.eq_of_isStop hu with hk | hk | hk <;> simp [Token.isWord, hs, hk]

theorem ne_nil_of_isWord {w : Bytes} (hw : s.current.isWord w = true) : s.tokens ≠ [] :=
  h.ne_nil_of_kind (by decide) (Token.kind_of_isWord hw)

/-- A pipe of the long text at the end of the short one. -/
theorem piped_of_nil (hs : s.tokens = []) (hu : u.current.kind = .pipe) : F.Piped := by
  obtain ⟨ts, htokens, hts⟩ := h.tokens
  rw [hs, List.forall₂_nil_left_iff] at hts
  subst hts
  rw [ParserState.current, htokens, List.nil_append] at hu
  rcases hr : F.rest with _ | ⟨t, rest⟩
  · rw [hr] at hu
    rw [List.headD_nil, h.ending'] at hu
    cases hu
  · rw [hr] at hu
    exact ⟨t, by rw [hr]; rfl, hu⟩

/-- The short text read to its end has the long one at `rest`. -/
theorem rest_of_nil (hs : s.tokens = []) : u.tokens = F.rest := by
  obtain ⟨ts, hu, hts⟩ := h.tokens
  rw [hs, List.forall₂_nil_left_iff] at hts
  rw [hu, hts, List.nil_append]

end Alike
end Frame
end KustoFacts
