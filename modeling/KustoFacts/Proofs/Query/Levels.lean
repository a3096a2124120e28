import KustoFacts.Proofs.Query.Lexer
import KustoFacts.Query.Node
import KustoFacts.Query.Parser.Words

/-!
    How tightly operators bind, by how they are spelled. The parser asks tokens for their levels; in
    a tree only the spelling of an operator is left of its token. Both say the same, because the
    tokens of symbols are spelled by these symbols (`operatorLevel_tokenAt`). `Form.Binds` says which
    operators may stand directly below which others. -/

namespace KustoFacts

/-- How tightly an infix operator binds: `or` is the loosest, then `and`, all that compares, sums and
    products. -/
def operatorLevel (op : Bytes) : Nat :=
  if op = bytes "or" then 1
  else if op = bytes "and" then 2
  else if op = bytes "+" || op = bytes "-" then 4
  else if op = bytes "*" || op = bytes "/" || op = bytes "%" then 5
  else 3

/-- The level of an infix operator's node. -/
def Form.level? : Form → Option Nat
  | .binary op | .between op => some (operatorLevel op)
  | _ => none

/-- A node is no infix operator, or one that binds tighter than a level. -/
def Node.BindsTighter (level : Nat) (n : Node) : Prop := ∀ l, n.form.level? = some l → level < l

namespace Node.BindsTighter

variable {n : Node} {level l : Nat}

theorem of_level (h : n.form.level? = some l) (hl : level < l) : n.BindsTighter level := by
  intro l' h'
  obtain rfl : l = l' := by simpa [h] using h'
  exact hl

theorem of_none (h : n.form.level? = none) : n.BindsTighter level := by
  intro l hl
  cases h.symm.trans hl

end Node.BindsTighter

/-- The operands of a node bind as its operator asks. On the left of an infix operator stands none
    that binds looser, save one that ends in a parenthesis of its own; on the right stands none that
    does not bind tighter; and behind a sign stands none at all. -/
def Form.Binds : Form → (operands : List Node) → Prop
  | .binary op, [left, right] =>
    left.role = .left ∧ right.role = .right ∧
      (∀ inner, left.form = .binary inner → operatorLevel op ≤ operatorLevel inner) ∧
      right.BindsTighter (operatorLevel op)
  | .between op, [operand, low, high] =>
    operand.role = .expression ∧ low.role = .low ∧ high.role = .high ∧
      ∀ inner, operand.form = .binary inner → operatorLevel op ≤ operatorLevel inner
  | .unary _, [operand] => operand.role = .expression ∧ operand.form.level? = none
  | .binary _, _ | .between _, _ | .unary _, _ => False
  | _, _ => True

/-! ### Tokens -/

/-- The level of the tokens of a kind, when it does not depend on their texts. -/
def TokenKind.level (kind : TokenKind) : Nat := infixLevel ⟨kind, [], .start, 0⟩

/-- Only words bind by their spelling. -/
theorem infixLevel_eq_level {t : Token} (h : t.kind ≠ .word) : infixLevel t = t.kind.level := by
  rcases t with ⟨kind, text, pos, stop⟩
  cases kind
  case word => exact absurd rfl h
  all_goals rfl

theorem operatorLevel_word {t : Token} (hkind : t.kind = .word) (h : infixLevel t ≠ 0) :
    operatorLevel t.text = infixLevel t := by
  have hwords : ∀ w ∈ stringOperators, operatorLevel w = 3 := by decide
  simp only [infixLevel, hkind] at h ⊢
  split at h
  next hor => rw [if_pos hor, hor]; rfl
  next hor =>
    rw [if_neg hor]
    split at h
    next hand => rw [if_pos hand, hand]; rfl
    next hand =>
      rw [if_neg hand]
      split at h
      next hword => rw [if_pos hword, hwords _ (by simpa using hword)]
      next => exact absurd rfl h

/-- An operator that begins with an exclamation mark compares. -/
theorem operatorLevel_negated (name : Bytes) : operatorLevel (byteOf '!' :: name) = 3 := by
  have hother : ∀ op ∈ ["or", "and", "+", "-", "*", "/", "%"].map bytes,
      byteOf '!' :: name ≠ op := by
    intro op hop heq
    have hhead : ∀ op ∈ ["or", "and", "+", "-", "*", "/", "%"].map bytes,
        op.head? ≠ some (byteOf '!') := by decide
    exact hhead op hop (by rw [← heq]; rfl)
  simp only [List.map_cons, List.map_nil, List.forall_mem_cons] at hother
  simp [operatorLevel, hother]

namespace Lexeme

variable {b : UInt8} {rest : Bytes} {kind : TokenKind}

/-! Symbols bind as they are spelled. -/

theorem level_punctuation? (h : punctuation? b = some kind) (hlevel : kind.level ≠ 0) :
    operatorLevel [b] = kind.level := by
  obtain ⟨⟨c, k⟩, hrow, hk⟩ := List.exists_of_findSome?_eq_some h
  dsimp only at hk
  split at hk <;> cases hk
  subst b
  refine (?_ : ∀ x ∈ _, x.2.level ≠ 0 → operatorLevel [byteOf x.1] = x.2.level) (c, kind) hrow hlevel
  decide

theorem level_alone? (h : alone? b = some kind) (hlevel : kind.level ≠ 0) :
    operatorLevel [b] = kind.level := by
  obtain ⟨⟨c, k⟩, hrow, hk⟩ := List.exists_of_findSome?_eq_some h
  dsimp only at hk
  split at hk <;> cases hk
  subst b
  refine (?_ : ∀ x ∈ _, x.2.level ≠ 0 → operatorLevel [byteOf x.1] = x.2.level) (c, kind) hrow hlevel
  decide

theorem level_pair? (h : pair? b rest = some kind) (hlevel : kind.level ≠ 0) :
    operatorLevel (b :: rest.take 1) = kind.level := by
  rcases rest with _ | ⟨e, rest⟩
  · rw [pair?_nil] at h
    cases h
  obtain ⟨⟨c, d, k⟩, hrow, hk⟩ := List.exists_of_findSome?_eq_some h
  dsimp only at hk
  split at hk
  next hspelled =>
    cases hk
    simp only [startsWith, Bool.and_eq_true, decide_eq_true_eq] at hspelled
    obtain ⟨rfl, rfl⟩ := hspelled
    refine (?_ : ∀ x ∈ _, x.2.2.level ≠ 0 → operatorLevel [byteOf x.1, byteOf x.2.1] = x.2.2.level)
      (c, d, kind) hrow hlevel
    decide
  next => cases hk

/-- The text of a lexeme that is no word binds as its kind does. -/
theorem level_head (hkind : (head b rest).kind ≠ .word) (h : (head b rest).kind.level ≠ 0) :
    operatorLevel (b :: rest.take (head b rest).more) = (head b rest).kind.level := by
  have hform := headOf b rest
  generalize head b rest = lexeme at hform hkind h ⊢
  cases hform with
  | mark hsymbol => exact level_punctuation? hsymbol h
  | pair hsymbol => exact level_pair? hsymbol h
  | alone hsymbol => exact level_alone? hsymbol h
  | negated hb =>
    rw [hb, operatorLevel_negated]
    unfold negated
    dsimp only
    split <;> rfl
  | quoted | fenced | verbatim =>
    rw [kind_ofString] at h
    exact absurd rfl h
  | marked _ hstring =>
    rw [kind_string? hstring] at h
    exact absurd rfl h
  | word =>
    rw [(kind_word b rest).resolve_left hkind] at h
    exact absurd rfl h
  | number =>
    rw [kind_number] at h
    exact absurd rfl h
  | unexpected => exact absurd rfl h

end Lexeme

theorem operatorLevel_tokenAt (pos : Position) (b : UInt8) (rest : Bytes)
    (h : infixLevel (Tokens.tokenAt pos b rest) ≠ 0) :
    operatorLevel (Tokens.tokenAt pos b rest).text = infixLevel (Tokens.tokenAt pos b rest) := by
  by_cases hkind : (Tokens.tokenAt pos b rest).kind = .word
  · exact operatorLevel_word hkind h
  · rw [infixLevel_eq_level hkind] at h ⊢
    exact Lexeme.level_head hkind h

/-- Each token that a lexer yields is cut off the text by its first byte and what follows it. -/
theorem Lexer.Yields.cut {l : Lexer} {r : Tokens} (h : l.Yields r) :
    ∀ t ∈ r.tokens, ∃ b rest, t = Tokens.tokenAt t.pos b rest := by
  induction h with
  | ending => nofun
  | @token l after t r hnext hkind _ ih =>
    refine List.forall_mem_cons.2 ⟨?_, ih⟩
    rw [next] at hnext
    split at hnext
    · cases hnext
      exact absurd rfl hkind
    · dsimp only at hnext
      split at hnext
      · cases hnext
      · cases hnext
        exact ⟨_, _, rfl⟩

end KustoFacts
