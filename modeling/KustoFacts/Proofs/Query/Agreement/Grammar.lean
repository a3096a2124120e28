import KustoFacts.Proofs.Query.Agreement.Statement
import KustoFacts.Query.Parser.Grammar

/-!
    The grammar agrees with itself. By induction on the steps allowed in the short text, every goal
    that is within reach in the long text agrees. -/

namespace KustoFacts.Frame

open KustoFacts.Parser

variable {F : Frame} {g : Grammar} {s : ParserState}

/-! ### Parentheses that nothing closes -/

theorem not_clean_signed (he : s.ending.kind = .endOfInput) (hs : Unclosed s) :
    ¬((signed g).run s).2.Clean := by
  rw [signed, run_current_bind, if_neg (by simp [hs.1]), selected, run_current_bind]
  refine not_clean_bind ?_
  simp only [primary, run_current_bind, hs.1, parenthesized, run_advance_bind]
  refine not_clean_bind_of_forall ?_
  intro items t ht
  refine not_clean_expect (by rw [ht.ending]; exact he) (by decide) ?_
  intro v hv
  exact hs.2 v (List.mem_of_mem_tail (ht.tokens.subset hv))

theorem not_clean_unary (steps : Nat) (he : s.ending.kind = .endOfInput) (hs : Unclosed s) :
    ¬((Grammar.reachIn steps .unary).run s).2.Clean := by
  cases steps with
  | zero => exact s.not_clean_reportNesting
  | succ steps =>
    intro hc
    simp only [Grammar.reachIn, Grammar.produce, nested] at hc
    by_cases hd : s.depth + 1 ≤ maxNesting
    · simp only [if_pos hd] at hc
      exact not_clean_signed (s := deeper s) he hs hc
    · simp only [if_neg hd] at hc
      exact ParserState.not_clean_reportNesting _ ((fail.forward _).clean hc)

/-! ### All goals -/

/-- Without steps, nothing is read of the short text. -/
theorem grammars_none (F : Frame) (steps : Nat) :
    F.Grammars steps ⟨0, Grammar.reachIn 0⟩ ⟨steps, Grammar.reachIn steps⟩ where
  bound := Nat.le_refl _
  unary _ _ := .of_not_clean (ParserState.not_clean_reportNesting _)
  pipeOperator _ _ := .of_not_clean (ParserState.not_clean_reportNesting _)
  sources _ _ := .of_not_clean (ParserState.not_clean_reportNesting _)
  binary _ _ _ _ _ := .of_not_clean (ParserState.not_clean_reportNesting _)
  braced _ _ := .of_not_clean (not_clean_bind (ParserState.not_clean_reportNesting _))
  unclosed _ he hs := not_clean_unary 0 he hs

/-- Without steps for the long text, nothing is within reach. -/
theorem grammars_unreached (F : Frame) (few : Nat) :
    F.Grammars 0 ⟨few, Grammar.reachIn few⟩ ⟨0, Grammar.reachIn 0⟩ where
  bound := Nat.le_refl _
  unary _ hn := absurd hn (by omega)
  pipeOperator _ hn := absurd hn (by omega)
  sources _ hn := absurd hn (by omega)
  binary _ _ _ _ hn := absurd hn (by omega)
  braced _ hn := absurd hn (by omega)
  unclosed _ he hs := not_clean_unary few he hs

/-- What is within reach is, with one step more, within reach of every goal that leads to it. -/
theorem grammars_succ {F : Frame} {few steps : Nat}
    (G : F.Grammars steps ⟨few, Grammar.reachIn few⟩ ⟨steps, Grammar.reachIn steps⟩) :
    F.Grammars (steps + 1) ⟨few + 1, Grammar.reachIn (few + 1)⟩
      ⟨steps + 1, Grammar.reachIn (steps + 1)⟩ where
  bound := Nat.le_refl _
  unary h hn :=
    agrees_nested h (fun _ _ _ _ => Tree.nested) (agrees_signed G h.deeper (by
      simp only [deeper]; omega))
  pipeOperator h hn :=
    agrees_nested h (fun _ _ _ _ => Tree.nested) (agrees_pipeOperator G h.deeper (by
      simp only [deeper]; omega))
  sources h hn := agrees_primary G h (by omega)
  binary level _ _ h hn := agrees_binary G h (by omega) level
  braced {limit n s u} h hn := by
    refine .bindExpect h.ending (by decide) (agrees_query G h (by omega)) ?_
    rintro x y t v ⟨hxy, ht⟩
    refine agrees_expect ht.toAlike rfl ?_
    intro _ h1
    exact .ret ⟨hxy, h1.mono (Nat.le_of_lt_succ ht.fewer)⟩
  unclosed _ he hs := not_clean_unary (few + 1) he hs

/-- A goal is within reach of `steps` in the long text, whatever steps the short one is given. -/
theorem grammars_reachIn (F : Frame) (few steps : Nat) :
    F.Grammars steps ⟨few, Grammar.reachIn few⟩ ⟨steps, Grammar.reachIn steps⟩ := by
  induction few generalizing steps with
  | zero => exact grammars_none F steps
  | succ few ih =>
    cases steps with
    | zero => exact grammars_unreached F (few + 1)
    | succ steps => exact grammars_succ (ih steps)

end KustoFacts.Frame
