import KustoFacts.Proofs.Query.Frame

/-!
    Agreement of composed steps. A sequence of steps agrees if its members do; a loop agrees if its
    rounds do and the long text's bound exceeds the tokens left, since each round that goes on has
    consumed one. What gives a report in the short text agrees with everything. -/

namespace KustoFacts.Frame

open KustoFacts.Parser

variable {F : Frame} {α β γ δ : Type} {limit : Limit} {n : Nat} {s u : ParserState}
variable {Q : α → β → ParserState → ParserState → Prop}
variable {W : γ → δ → ParserState → ParserState → Prop}

/-! ### Reports -/

theorem not_clean_bind {p : Parser α} {f : α → Parser β} (h : ¬(p.run s).2.Clean) :
    ¬((p >>= f).run s).2.Clean := by
  rw [run_bind]
  rcases hp : p.run s with ⟨_ | x, t⟩ <;> rw [hp] at h
  · exact h
  · exact fun hc => h (((f x).forward t).clean hc)

theorem not_clean_bind_of_forall {p : Parser α} {f : α → Parser β}
    (h : ∀ x t, s.Forward t → ¬((f x).run t).2.Clean) : ¬((p >>= f).run s).2.Clean := by
  have forward := p.forward s
  have honest := p.honest s
  rw [run_bind]
  rcases hp : p.run s with ⟨_ | x, t⟩ <;> rw [hp] at forward honest
  · exact honest rfl
  · exact h x t forward

/-- A token expected that is not left is reported. -/
theorem not_clean_expect {kind : TokenKind} {f : Unit → Parser α}
    (he : s.ending.kind = .endOfInput) (hk : kind ≠ .endOfInput)
    (hs : ∀ t ∈ s.tokens, t.kind ≠ kind) : ¬((expect kind >>= f).run s).2.Clean := by
  have hne : s.current.kind ≠ kind := by
    rcases List.mem_cons.1 s.current_mem with hc | hc
    · rw [hc, he]
      exact hk.symm
    · exact hs _ hc
  refine not_clean_bind ?_
  simp only [expect, if_neg hne]
  exact s.not_clean_report _

/-! ### Sequences -/

namespace Agrees

theorem ret {x : α} {y : β} (h : Q x y s u) : F.Agrees limit Q (some x, s) (some y, u) :=
  fun _ _ => ⟨x, y, rfl, rfl, h⟩

theorem of_not_clean {r : Option α × ParserState} {q : Option β × ParserState}
    (h : ¬r.2.Clean) : F.Agrees limit Q r q := fun hc => absurd hc h

theorem mono {Q' : α → β → ParserState → ParserState → Prop} {r : Option α × ParserState}
    {q : Option β × ParserState} (h : F.Agrees limit Q r q)
    (k : ∀ x y, Q x y r.2 q.2 → Q' x y r.2 q.2) : F.Agrees limit Q' r q := by
  intro hc ho
  obtain ⟨x, y, hx, hy, hq⟩ := h hc ho
  exact ⟨x, y, hx, hy, k x y hq⟩

/-- A step that does not reach the end of the short text begins before it. -/
theorem beginning {p : Parser α} {q : Option β × ParserState}
    (h : s.tokens ≠ [] → F.Agrees .beforeEnd Q (p.run s) q) :
    F.Agrees .beforeEnd Q (p.run s) q := fun hc hw =>
  have hs : F.Within .beforeEnd s := within_of_forward (p.forward s) hw
  h hs hc hw

variable {p : Parser α} {p' : Parser β} {f : α → Parser γ} {f' : β → Parser δ}

theorem bind (h : F.Agrees limit Q (p.run s) (p'.run u))
    (k : ∀ x y t v, Q x y t v → F.Agrees limit W ((f x).run t) ((f' y).run v)) :
    F.Agrees limit W ((p >>= f).run s) ((p' >>= f').run u) := by
  intro hc ho
  have honest := p.honest s
  rw [run_bind] at hc ho ⊢
  rcases hp : p.run s with ⟨_ | x, t⟩ <;> rw [hp] at hc ho honest h
  · exact absurd hc (honest rfl)
  · have forward := (f x).forward t
    obtain ⟨x', y, hx, hy, hq⟩ := h (forward.clean hc) (within_of_forward forward ho)
    cases hx
    rcases hp' : p'.run u with ⟨_ | y', v⟩ <;> rw [hp'] at hy hq <;> cases hy
    rw [run_bind, hp']
    exact k x y t v hq hc ho

/-- A step that must not read to the end of the short text, before a token that is not the end. -/
theorem bindExpect {kind : TokenKind} {f : α → Unit → Parser γ} {f' : β → Unit → Parser δ}
    (hs : s.ending.kind = .endOfInput) (hk : kind ≠ .endOfInput)
    (h : F.Agrees .beforeEnd Q (p.run s) (p'.run u))
    (k : ∀ x y t v, Q x y t v →
      F.Agrees limit W ((expect kind >>= f x).run t) ((expect kind >>= f' y).run v)) :
    F.Agrees limit W ((p >>= fun x => expect kind >>= f x).run s)
      ((p' >>= fun y => expect kind >>= f' y).run u) := by
  intro hc ho
  have honest := p.honest s
  have ending := (p.forward s).ending
  rw [run_bind] at hc ho ⊢
  rcases hp : p.run s with ⟨_ | x, t⟩ <;> rw [hp] at hc ho honest ending h
  · exact absurd hc (honest rfl)
  · have ht : t.tokens ≠ [] := fun hn =>
      not_clean_expect (by rw [ending]; exact hs) hk (by simp [hn]) hc
    obtain ⟨x', y, hx, hy, hq⟩ := h (((expect kind >>= f x).forward t).clean hc) ht
    cases hx
    rcases hp' : p'.run u with ⟨_ | y', v⟩ <;> rw [hp'] at hy hq <;> cases hy
    rw [run_bind, hp']
    exact k x y t v hq hc ho

end Agrees

/-! ### Single steps -/

theorem agrees_expect (h : F.Alike s u) {kind : TokenKind} (hk : kind.isStop = false)
    {f : Unit → Parser γ} {f' : Unit → Parser δ}
    (k : s.tokens ≠ [] → F.Touching s.tokens.length s.advance u.advance →
      F.Agrees limit W ((f ()).run s.advance) ((f' ()).run u.advance)) :
    F.Agrees limit W ((expect kind >>= f).run s) ((expect kind >>= f').run u) := by
  by_cases hc : s.current.kind = kind
  · have hs := h.ne_nil_of_kind hk hc
    simp only [run_bind, expect, if_pos hc, if_pos ((h.kind_iff hk).1 hc)]
    exact k hs (h.advance hs (Nat.le_refl _))
  · refine .of_not_clean (not_clean_bind ?_)
    simp only [expect, if_neg hc]
    exact s.not_clean_report _

theorem agrees_accept (h : F.Alike s u) {kind : TokenKind} (hk : kind.isStop = false)
    {f : Bool → Parser γ} {f' : Bool → Parser δ}
    (yes : F.Touching s.tokens.length s.advance u.advance →
      F.Agrees limit W ((f true).run s.advance) ((f' true).run u.advance))
    (no : F.Agrees limit W ((f false).run s) ((f' false).run u)) :
    F.Agrees limit W ((accept kind >>= f).run s) ((accept kind >>= f').run u) := by
  rw [run_accept_bind, run_accept_bind]
  by_cases hc : s.current.kind = kind
  · rw [if_pos hc, if_pos ((h.kind_iff hk).1 hc)]
    exact yes (h.advance (h.ne_nil_of_kind hk hc) (Nat.le_refl _))
  · rw [if_neg hc, if_neg (mt (h.kind_iff hk).2 hc)]
    exact no

theorem agrees_acceptWord (h : F.Touching n s u) (word : Bytes) :
    F.Agrees limit (F.Equal (s.tokens.length + 1)) ((acceptWord word).run s)
      ((acceptWord word).run u) := by
  simp only [acceptWord, ← h.isWord_eq]
  split
  · rename_i hw
    exact .ret ⟨rfl, h.advance (h.ne_nil_of_isWord hw) (Nat.le_succ _)⟩
  · exact .ret ⟨rfl, { h with fewer := Nat.lt_succ_self _ }⟩

theorem agrees_build (h : F.Touching n s u) {first first' : Token} {form : Form}
    {children children' : List Node} (hf : first.outline = first'.outline)
    (hc : Node.LikeAll children children') :
    F.Agrees limit (F.Tree n) ((build first form children).run s)
      ((build first' form children').run u) := by
  rw [run_build, run_build]
  exact .ret ⟨Node.like_mk hf hc, h⟩

/-- A step that is taken one level deeper. -/
def deeper (s : ParserState) : ParserState := { s with depth := s.depth + 1 }

theorem Alike.deeper (h : F.Alike s u) : F.Alike (Frame.deeper s) (Frame.deeper u) :=
  { h with depth := by simp [Frame.deeper, h.depth] }

theorem Touching.deeper (h : F.Touching n s u) : F.Touching n (Frame.deeper s) (Frame.deeper u) :=
  { h with toAlike := h.toAlike.deeper }

/-- Like nodes are read one level deeper as well; beyond the limit nesting is reported. -/
theorem agrees_nested {inside beyond : Parser α} {inside' beyond' : Parser β} (h : F.Alike s u)
    (hQ : ∀ x y t v, Q x y t v →
      Q x y { t with depth := t.depth - 1 } { v with depth := v.depth - 1 })
    (k : F.Agrees limit Q (inside.run (Frame.deeper s)) (inside'.run (Frame.deeper u))) :
    F.Agrees limit Q ((nested inside beyond).run s) ((nested inside' beyond').run u) := by
  intro hc ho
  simp only [nested] at hc ho ⊢
  by_cases hd : s.depth + 1 ≤ maxNesting
  · simp only [if_pos hd, h.depth] at hc ho ⊢
    obtain ⟨x, y, hx, hy, hq⟩ := k hc ho
    simp only [Frame.deeper, h.depth] at hx hy hq
    exact ⟨x, y, hx, hy, hQ x y _ _ hq⟩
  · simp only [if_neg hd] at hc
    exact absurd ((beyond.forward _).clean hc) (ParserState.not_clean_reportNesting _)

theorem Tree.nested {x y : Node} (h : F.Tree n x y s u) :
    F.Tree n x y { s with depth := s.depth - 1 } { u with depth := u.depth - 1 } :=
  ⟨h.1, { h.2 with depth := by simp [h.2.depth] }⟩

/-! ### Loops -/

/-- How two rounds agree: both go on, with a token less, or both stop. -/
def Rounds {α' β' : Type} (I : α → α' → Prop) (Q : β → β' → ParserState → ParserState → Prop)
    (n : Nat) : Round α β → Round α' β' → ParserState → ParserState → Prop
  | .again x, .again y, s, u => I x y ∧ F.Touching n s u
  | .done x, .done y, s, u => Q x y s u
  | _, _, _, _ => False

theorem agrees_rounds_cons {α' β' : Type} {I : α → α' → Prop}
    {Q : β → β' → ParserState → ParserState → Prop} {bound bound' : Nat} {x : α} {y : α'}
    {step : α → Parser (Round α β)} {step' : α' → Parser (Round α' β')}
    (hfirst : F.Agrees limit (F.Rounds I Q n) ((step x).run s) ((step' y).run u))
    (hrest : ∀ x y t v, I x y → F.Touching n t v →
      F.Agrees limit Q (rounds step bound x t) (rounds step' bound' y v)) :
    F.Agrees limit Q (rounds step (bound + 1) x s) (rounds step' (bound' + 1) y u) := by
  have honest := (step x).honest s
  intro hc ho
  rw [rounds_succ] at hc ho ⊢
  rw [rounds_succ]
  rcases hr : (step x).run s with ⟨_ | x' | z, t⟩ <;> rw [hr] at hc ho honest hfirst
  · exact absurd hc (honest rfl)
  · have forward := forward_rounds step bound x' t
    obtain ⟨r, r', hx, hy, hq⟩ := hfirst (forward.clean hc) (within_of_forward forward ho)
    cases hx
    rcases hr' : (step' y).run u with ⟨_ | y' | z', v⟩ <;> rw [hr'] at hy hq <;> cases hy
    · exact hrest x' y' t v hq.1 hq.2 hc ho
    · exact hq.elim
  · obtain ⟨r, r', hx, hy, hq⟩ := hfirst hc ho
    cases hx
    rcases hr' : (step' y).run u with ⟨_ | y' | z', v⟩ <;> rw [hr'] at hy hq <;> cases hy
    · exact hq.elim
    · exact ⟨z, z', rfl, rfl, hq⟩

theorem agrees_rounds {α' β' : Type} {I : α → α' → Prop}
    {Q : β → β' → ParserState → ParserState → Prop}
    {step : α → Parser (Round α β)} {step' : α' → Parser (Round α' β')}
    (hstep : ∀ x y t v, I x y → F.Touching n t v →
      F.Agrees limit (F.Rounds I Q t.tokens.length) ((step x).run t) ((step' y).run v)) :
    ∀ (bound bound' : Nat) (x : α) (y : α') (s u : ParserState), I x y → F.Touching n s u →
      s.tokens.length < bound' →
      F.Agrees limit Q (rounds step bound x s) (rounds step' bound' y u) := by
  intro bound
  induction bound with
  | zero =>
    intro _ _ _ s _ _ _ _
    exact .of_not_clean s.not_clean_reportNesting
  | succ bound ih =>
    intro bound' x y s u hI h hb
    obtain ⟨bound', rfl⟩ : ∃ m, bound' = m + 1 := ⟨bound' - 1, by omega⟩
    refine agrees_rounds_cons (hstep x y s u hI h) ?_
    intro x' y' t v hI' ht
    have hlt := ht.fewer
    exact ih bound' x' y' t v hI' (ht.mono (Nat.le_of_lt h.fewer)) (by omega)

theorem agrees_loop {α' β' : Type} {I : α → α' → Prop}
    {Q : β → β' → ParserState → ParserState → Prop} {bound bound' : Nat} {x : α} {y : α'}
    {step : α → Parser (Round α β)} {step' : α' → Parser (Round α' β')}
    (h : F.Touching n s u) (hb : n ≤ bound') (hI : I x y)
    (hstep : ∀ x y t v, I x y → F.Touching n t v →
      F.Agrees limit (F.Rounds I Q t.tokens.length) ((step x).run t) ((step' y).run v)) :
    F.Agrees limit Q ((loop step bound x).run s) ((loop step' bound' y).run u) :=
  agrees_rounds hstep bound bound' x y s u hI h (Nat.lt_of_lt_of_le h.fewer hb)

end KustoFacts.Frame
