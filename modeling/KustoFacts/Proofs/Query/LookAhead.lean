import KustoFacts.Proofs.Query.Agreement
import KustoFacts.Query.Parser.Statement

/-!
    Looking ahead. Every test by which the parser chooses its way gives the same answer in the short
    text and in the long one: a semicolon or a pipe ahead decides as the end of the text does. The
    one exception is the beginning of a subquery, which a pipe after its first word confirms and the
    end of the text does not. -/

namespace KustoFacts.Frame

open KustoFacts.Parser

variable {F : Frame} {s u : ParserState}

namespace Seen

variable {t v : Token} (h : F.Seen t v)
include h

theorem infixLevel_eq : infixLevel t = infixLevel v := by
  rcases h with same | ⟨ht, hv⟩
  · rw [infixLevel, infixLevel, same.kind, same.text]
  · rcases TokenKind.eq_of_isStop hv with hk | hk | hk <;> simp [infixLevel, ht, hk]

theorem startsOperand_eq : startsOperand t = startsOperand v := by
  rcases h with same | ⟨ht, hv⟩
  · rw [startsOperand, startsOperand, same.kind]
  · rcases TokenKind.eq_of_isStop hv with hk | hk | hk <;> simp [startsOperand, ht, hk]

theorem endsBody_eq : endsBody t = endsBody v := by
  rcases h with same | ⟨ht, hv⟩
  · rw [endsBody, endsBody, same.kind]
  · rcases TokenKind.eq_of_isStop hv with hk | hk | hk <;> simp [endsBody, ht, hk]

/-- A kind that is no stop is seen in both texts or in none. -/
theorem kind_iff {k : TokenKind} (hk : k.isStop = false) : t.kind = k ↔ v.kind = k := by
  rcases h with same | ⟨ht, hv⟩
  · rw [same.kind]
  · constructor
    · intro hc
      rw [← hc, ht] at hk
      cases hk
    · intro hc
      rw [hc, hk] at hv
      cases hv

theorem decide_kind {k : TokenKind} (hk : k.isStop = false) :
    decide (v.kind = k) = decide (t.kind = k) := decide_eq_decide.2 (h.kind_iff hk).symm

end Seen

namespace Alike

variable (h : F.Alike s u)
include h

theorem ne_nil_of_infixLevel {level : Nat} (hl : level < infixLevel s.current) :
    s.tokens ≠ [] := by
  intro hs
  rw [infixLevel, h.current_of_nil hs] at hl
  exact Nat.not_lt_zero _ hl

theorem ne_nil_of_endsBody (hb : endsBody s.current = false) : s.tokens ≠ [] := by
  intro hs
  rw [endsBody, h.current_of_nil hs] at hb
  cases hb

theorem isClause_eq (hs : s.tokens ≠ []) :
    isClause s.current s.next = isClause u.current u.next := by
  have same := h.same hs
  rw [isClause, isClause, same.kind, same.text]
  rcases h.look_next hs with same' | ⟨hn, hv⟩
  · rw [same'.kind]
  · rcases TokenKind.eq_of_isStop hv with hk | hk | hk <;> rw [hn, hk]

theorem startsLeading_eq : startsLeading s.current s.next = startsLeading u.current u.next := by
  by_cases hs : s.tokens = []
  · rcases TokenKind.eq_of_isStop (h.isStop_of_nil hs) with hk | hk | hk <;>
      simp [startsLeading, h.current_of_nil hs, hk]
  · have same := h.same hs
    rw [startsLeading, startsLeading, same.kind, same.text]
    rcases h.look_next hs with same' | ⟨hn, hv⟩
    · rw [same'.kind]
    · rcases TokenKind.eq_of_isStop hv with hk | hk | hk <;> simp [hn, hk]

theorem ne_nil_of_startsLeading (hl : startsLeading s.current s.next = true) :
    s.tokens ≠ [] := by
  intro hs
  rw [startsLeading, h.current_of_nil hs] at hl
  cases hl

/-- A token after a stop is not looked at. -/
theorem tail_ne_nil (hn : s.next.kind ≠ .endOfInput) :
    s.tokens.tail ≠ [] :=
  ParserState.tokens_ne_nil (s := s.advance) h.ending hn

theorem startsCall_eq (hs : s.tokens ≠ []) :
    startsCall s.current s.next s.afterNext = startsCall u.current u.next u.afterNext := by
  have same := h.same hs
  rcases h.look_next hs with same' | ⟨hn, hv⟩
  · by_cases hp : s.next.kind = .leftParen
    · have hthird := h.look_afterNext (h.tail_ne_nil (by rw [hp]; decide))
      have htouch : (u.next.pos.offset = u.current.stop) = (s.next.pos.offset = s.current.stop) := by
        have := same.stop
        have := same'.offset
        exact propext ⟨fun _ => by omega, fun _ => by omega⟩
      simp only [startsCall, same'.kind, htouch]
      rcases hthird with same'' | ⟨hn, hv⟩
      · rw [same''.kind, same''.text]
      · rcases TokenKind.eq_of_isStop hv with hk | hk | hk <;> simp [hn, hk]
    · simp [startsCall, same'.kind, hp]
  · rcases TokenKind.eq_of_isStop hv with hk | hk | hk <;> simp [startsCall, hn, hk]

theorem startsWildcard_eq (hs : s.tokens ≠ []) :
    startsWildcard s.current s.next s.afterNext =
      startsWildcard u.current u.next u.afterNext := by
  have same := h.same hs
  rcases h.look_next hs with same' | ⟨hn, hv⟩
  · by_cases hp : s.next.kind = .star
    · have hthird := h.look_afterNext (h.tail_ne_nil (by rw [hp]; decide))
      have htouch : (u.next.pos.offset ≠ u.current.stop) = (s.next.pos.offset ≠ s.current.stop) := by
        have := same.stop
        have := same'.offset
        exact propext ⟨fun _ => by omega, fun _ => by omega⟩
      simp only [startsWildcard, same'.kind, htouch]
      rcases hthird with same'' | ⟨hn, hv⟩
      · have htouch' : (u.afterNext.pos.offset = u.next.stop) =
            (s.afterNext.pos.offset = s.next.stop) := by
          have := same'.stop
          have := same''.offset
          exact propext ⟨fun _ => by omega, fun _ => by omega⟩
        rw [same''.kind]
        simp only [htouch']
      · rcases TokenKind.eq_of_isStop hv with hk | hk | hk <;> simp [hn, hk]
    · simp [startsWildcard, same'.kind, hp]
  · rcases TokenKind.eq_of_isStop hv with hk | hk | hk <;> simp [startsWildcard, hn, hk]

/-- Whether a parameter starts is seen alike. -/
theorem startsParam_eq (op : Bytes) :
    ∃ x, (startsParam op).run s = (some x, s) ∧ (startsParam op).run u = (some x, u) ∧
      (x = true → s.tokens ≠ []) := by
  have hword := h.isWord_eq (bytes "hint")
  have hkind := h.look.decide_kind (k := .word) rfl
  by_cases hs : s.tokens = []
  · refine ⟨false, ?_, ?_, nofun⟩
    · simp [startsParam, Token.isWord, h.current_of_nil hs]
    · rcases TokenKind.eq_of_isStop (h.isStop_of_nil hs) with hk | hk | hk <;>
        simp [startsParam, Token.isWord, hk]
  · have same := h.same hs
    have hdot := (h.look_next hs).decide_kind (k := .dot) rfl
    have hassign := (h.look_next hs).decide_kind (k := .assign) rfl
    simp only [startsParam, run_current_bind, run_peek_bind, ← hword, hdot, ne_eq, decide_not,
      hkind, hassign, same.text]
    split
    · exact ⟨true, rfl, rfl, fun _ => hs⟩
    · split
      · exact ⟨false, rfl, rfl, nofun⟩
      · split
        · exact ⟨true, rfl, rfl, fun _ => hs⟩
        · exact ⟨_, rfl, rfl, fun _ => hs⟩

/-- Whether a function is declared is seen alike. -/
theorem startsFunction_eq :
    ∃ x, startsFunction.run s = (some x, s) ∧ startsFunction.run u = (some x, u) := by
  by_cases hs : s.tokens = []
  · refine ⟨false, ?_, ?_⟩
    · simp [startsFunction, Token.isWord, h.current_of_nil hs]
    · rcases TokenKind.eq_of_isStop (h.isStop_of_nil hs) with hk | hk | hk <;>
        simp [startsFunction, Token.isWord, hk]
  · have hword := h.isWord_eq (bytes "view")
    have hkind := (h.same hs).kind
    have hnext := h.look_next hs
    simp only [startsFunction, run_current_bind, run_peek_bind, run_peekSecond_bind, ← hword,
      hkind, ne_eq, hnext.decide_kind (k := .leftParen) rfl,
      hnext.decide_kind (k := .rightParen) rfl, hnext.decide_kind (k := .word) rfl]
    split
    · exact ⟨true, rfl, rfl⟩
    · split
      · exact ⟨false, rfl, rfl⟩
      · by_cases hn : s.next.kind = .endOfInput
        · simp [hn]
        · have hthird := h.look_afterNext (h.tail_ne_nil hn)
          rw [hthird.decide_kind (k := .leftBrace) rfl, hthird.decide_kind (k := .colon) rfl]
          exact ⟨_, rfl, rfl⟩

/-- Whether a pipe follows is seen alike, unless the short text ends where the long one goes on
    with a pipe. -/
theorem pipe_iff {limit : Limit} (hl : limit ≠ .anywhere) (ht : F.Within limit s) :
    s.current.kind = .pipe ↔ u.current.kind = .pipe := by
  by_cases hs : s.tokens = []
  · refine iff_of_false ?_ fun hu => ht.ne_nil hl (h.piped_of_nil hs hu) hs
    rw [h.current_of_nil hs]
    decide
  · rw [(h.same hs).kind]

/-- A statement that ends in the short text ends in the long one. -/
theorem endsStatement_of {limit : Limit} (hl : limit ≠ .anywhere) (ht : F.Within limit s)
    {stop : TokenKind} (he : endsStatement stop s.current = true) :
    endsStatement stop u.current = true := by
  by_cases hs : s.tokens = []
  · have hpipe := mt (h.pipe_iff hl ht).2 (by rw [h.current_of_nil hs]; decide)
    rcases TokenKind.eq_of_isStop (h.isStop_of_nil hs) with hk | hk | hk
    · simp [endsStatement, hk]
    · simp [endsStatement, hk]
    · exact absurd hk hpipe
  · rwa [endsStatement, (h.same hs).kind]

end Alike

/-! ### Subqueries -/

/-- A parenthesis that nothing closes. -/
def Unclosed (s : ParserState) : Prop :=
  s.current.kind = .leftParen ∧ ∀ t ∈ s.tokens, t.kind ≠ .rightParen

/-- A parenthesis and a word that end the short text. -/
theorem unclosed_of_two (hp : s.current.kind = .leftParen) (hw : s.next.kind = .word)
    (hs : s.tokens.tail.tail = []) : Unclosed s := by
  refine ⟨hp, fun t ht => ?_⟩
  rw [ParserState.current] at hp
  rw [ParserState.next] at hw
  rcases hts : s.tokens with _ | ⟨paren, _ | ⟨word, more⟩⟩
  · simp [hts] at ht
  · simp only [hts, List.headD_cons, List.mem_singleton] at hp ht
    rw [ht, hp]
    decide
  · simp only [hts, List.tail_cons] at hs
    subst hs
    simp only [hts, List.headD_cons, List.tail_cons, List.mem_cons, List.not_mem_nil,
      or_false] at hp hw ht
    rcases ht with rfl | rfl
    · rw [hp]; decide
    · rw [hw]; decide

/-- Whether a subquery starts is seen alike, unless the short text ends after a parenthesis and a
    word. -/
theorem Alike.startsSubquery_eq (h : F.Alike s u) :
    ∃ x y, startsSubquery.run s = (some x, s) ∧ startsSubquery.run u = (some y, u) ∧
      (x = y ∨ x = false ∧ Unclosed s) ∧ (x = true → s.tokens ≠ []) := by
  by_cases hs : s.tokens = []
  · refine ⟨false, false, ?_, ?_, .inl rfl, nofun⟩
    · simp [startsSubquery, h.current_of_nil hs]
    · rcases TokenKind.eq_of_isStop (h.isStop_of_nil hs) with hk | hk | hk <;>
        simp [startsSubquery, hk]
  have hkind := (h.same hs).kind
  rcases h.look_next hs with same | ⟨hn, hv⟩
  · simp only [startsSubquery, run_current_bind, run_peek_bind, run_peekSecond_bind, hkind,
      same.kind, same.text]
    split
    · exact ⟨false, false, rfl, rfl, .inl rfl, nofun⟩
    · rename_i hword
      simp only [Bool.or_eq_true, decide_eq_true_eq, ne_eq, not_or, not_not] at hword
      have htail := h.tail_ne_nil (by rw [hword.1.2]; decide)
      have twice := (h.advance hs (Nat.le_refl _)).toAlike.advance htail (Nat.le_refl _)
      by_cases htt : s.tokens.tail.tail = []
      · have unclosed := unclosed_of_two hword.1.1 hword.1.2 htt
        have hstop : u.afterNext.kind.isStop = true := twice.toAlike.isStop_of_nil htt
        rw [show s.afterNext.kind = .endOfInput from twice.toAlike.current_of_nil htt]
        rcases TokenKind.eq_of_isStop hstop with hk | hk | hk <;> rw [hk]
        · exact ⟨false, false, rfl, rfl, .inl rfl, nofun⟩
        · exact ⟨false, false, rfl, rfl, .inl rfl, nofun⟩
        · exact ⟨false, true, rfl, rfl, .inr ⟨rfl, unclosed⟩, nofun⟩
      · rw [show u.afterNext.kind = s.afterNext.kind from (twice.toAlike.same htt).kind]
        split
        all_goals exact ⟨_, _, rfl, rfl, .inl rfl, fun _ => hs⟩
  · refine ⟨false, false, ?_, ?_, .inl rfl, nofun⟩
    · simp [startsSubquery, hn]
    · rcases TokenKind.eq_of_isStop hv with hk | hk | hk <;> simp [startsSubquery, hk]

end KustoFacts.Frame
