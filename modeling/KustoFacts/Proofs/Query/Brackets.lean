import KustoFacts.Query.Token

/-!
    Brackets in token lists. The depth of brackets of one sort is counted from the left; the count
    fails when a bracket is closed that has not been opened. A list that ends as deep as it began is
    balanced, and can be left out of a longer one without any difference to its depth. -/

namespace KustoFacts

/-- How many brackets are open after a token, of a number of them before it; `none` if it closes one
    and none is open. -/
def stepDepth? (opening closing : TokenKind) (depth : Nat) (t : Token) : Option Nat :=
  if t.kind = opening then some (depth + 1)
  else if t.kind = closing then if depth = 0 then none else some (depth - 1)
  else some depth

/-- How many brackets are open after a list of tokens, of a number of them before it. -/
def depthAfter? (opening closing : TokenKind) (depth : Nat) (ts : List Token) : Option Nat :=
  ts.foldlM (stepDepth? opening closing) depth

/-- Every bracket is closed after it has been opened, and none is closed that has not been. -/
def Balanced (opening closing : TokenKind) (ts : List Token) : Prop :=
  depthAfter? opening closing 0 ts = some 0


variable {opening closing : TokenKind} {t : Token} {ts us : List Token} {depth after : Nat}

instance : Decidable (Balanced opening closing ts) := inferInstanceAs (Decidable (_ = _))

theorem depthAfter?_cons :
    depthAfter? opening closing depth (t :: ts) =
      (stepDepth? opening closing depth t).bind (depthAfter? opening closing · ts) :=
  List.foldlM_cons

theorem depthAfter?_append :
    depthAfter? opening closing depth (ts ++ us) =
      (depthAfter? opening closing depth ts).bind (depthAfter? opening closing · us) :=
  List.foldlM_append

theorem depthAfter?_opening (ht : t.kind = opening) :
    depthAfter? opening closing depth (t :: ts) = depthAfter? opening closing (depth + 1) ts := by
  rw [depthAfter?_cons, stepDepth?, if_pos ht, Option.bind_some]

theorem depthAfter?_other (ht : t.kind ≠ opening) (ht' : t.kind ≠ closing) :
    depthAfter? opening closing depth (t :: ts) = depthAfter? opening closing depth ts := by
  rw [depthAfter?_cons, stepDepth?, if_neg ht, if_neg ht', Option.bind_some]

/-- A bracket that is closed is open before. -/
theorem depthAfter?_closing (hne : closing ≠ opening) (ht : t.kind = closing)
    (h : depthAfter? opening closing depth (t :: ts) = some after) :
    ∃ less, depth = less + 1 ∧ depthAfter? opening closing less ts = some after := by
  rw [depthAfter?_cons, stepDepth?, if_neg (ht ▸ hne), if_pos ht] at h
  cases depth with
  | zero => cases h
  | succ less => exact ⟨less, rfl, h⟩

/-- What is counted inside of brackets is counted inside of more of them. -/
theorem depthAfter?_add (more : Nat) (h : depthAfter? opening closing depth ts = some after) :
    depthAfter? opening closing (depth + more) ts = some (after + more) := by
  induction ts generalizing depth with
  | nil => rw [Option.some.inj h]; rfl
  | cons t ts ih =>
    by_cases hopen : t.kind = opening
    · rw [depthAfter?_opening hopen] at h ⊢
      rw [Nat.add_right_comm, ih h]
    by_cases hclose : t.kind = closing
    · obtain ⟨less, rfl, hless⟩ := depthAfter?_closing (fun he => hopen (hclose.trans he)) hclose h
      rw [depthAfter?_cons, stepDepth?, if_neg hopen, if_pos hclose, if_neg (by omega),
        Option.bind_some, show less + 1 + more - 1 = less + more by omega, ih hless]
    · rw [depthAfter?_other hopen hclose] at h ⊢
      exact ih h

/-- A balanced list makes no difference to what comes after it. -/
theorem Balanced.depthAfter?_append (h : Balanced opening closing ts) :
    depthAfter? opening closing depth (ts ++ us) = depthAfter? opening closing depth us := by
  have hdepth := depthAfter?_add depth h
  rw [Nat.zero_add] at hdepth
  rw [KustoFacts.depthAfter?_append, hdepth, Option.bind_some]

end KustoFacts
