import KustoFacts.Query.Lexeme
import Mathlib.Data.FinEnum
import Mathlib.Tactic.Common

/-!
    The forms of a lexeme. `Lexeme.head` asks for one form after another; `HeadOf` has a case for each
    of them, with what the text must begin with, so that what is said of every lexeme is said form
    by form. -/

namespace KustoFacts

/-- The bytes that begin a name. -/
def beginsName (b : UInt8) : Bool := isLetterByte b || b = byteOf '_' || b = byteOf '$'

namespace Lexeme

/-- The lexeme at the head of the text `b :: rest`, by its form. -/
inductive HeadOf (b : UInt8) (rest : Bytes) : Lexeme → Prop where
  | mark {kind : TokenKind} (h : punctuation? b = some kind) : HeadOf b rest (sound kind 0)
  | pair {kind : TokenKind} (h : pair? b rest = some kind) : HeadOf b rest (sound kind 1)
  | alone {kind : TokenKind} (h : alone? b = some kind) (hpair : pair? b rest = none)
      (hpoint : b = byteOf '.' → startsWith isDigit rest = false) : HeadOf b rest (sound kind 0)
  | negated (hb : b = byteOf '!') (h : startsWith isLetterByte rest = true) :
      HeadOf b rest (negated rest)
  | quoted (h : isQuote b = true) : HeadOf b rest (ofString (quoted b 0 rest))
  | fenced (hb : b = 0x60) (h : startsFence (b :: rest) = true) :
      HeadOf b rest (ofString (fenced 2 (rest.drop 2)))
  | verbatim {quote : UInt8} {tail : Bytes} (hb : b = byteOf '@') (hquote : isQuote quote = true)
      (hrest : rest = quote :: tail) : HeadOf b rest (ofString (verbatim quote 1 tail))
  | marked {lexeme : Lexeme} (hb : b = byteOf 'h' ∨ b = byteOf 'H')
      (h : string? 0 rest = some lexeme) : HeadOf b rest lexeme
  | word (hb : beginsName b = true) (h : b = byteOf 'h' ∨ b = byteOf 'H' → string? 0 rest = none) :
      HeadOf b rest (word b rest)
  | number (h : isDigit b = true ∨ b = byteOf '.' ∧ startsWith isDigit rest = true) :
      HeadOf b rest (number b rest)
  | unexpected (hb : isLetterByte b = false) : HeadOf b rest unexpected

variable {b : UInt8} {rest : Bytes} {lexeme : Lexeme}

/-- Every lexeme has one of the forms. -/
theorem headOf (b : UInt8) (rest : Bytes) : HeadOf b rest (head b rest) := by
  unfold head
  split
  · exact .mark ‹_›
  split
  · exact .pair ‹_›
  rename_i hpair
  split
  · rename_i hpoint
    simp only [Bool.and_eq_true, decide_eq_true_eq] at hpoint
    exact .number (.inr hpoint)
  rename_i hpoint
  split
  · rename_i halone
    refine .alone halone hpair fun hb => ?_
    simpa [hb] using hpoint
  split
  · rename_i hmark
    split
    · exact .negated hmark ‹_›
    · exact .unexpected (hmark ▸ rfl)
  split
  · exact .quoted ‹_›
  split
  · rename_i htick
    split
    · exact .fenced htick ‹_›
    · exact .unexpected (htick ▸ rfl)
  split
  · rename_i hat
    rcases rest with _ | ⟨quote, tail⟩
    · exact .unexpected (hat ▸ rfl)
    dsimp only
    split
    · exact .verbatim hat ‹_› rfl
    · exact .unexpected (hat ▸ rfl)
  split
  · rename_i hmarked
    simp only [Bool.or_eq_true, decide_eq_true_eq] at hmarked
    rcases hstring : string? 0 rest with _ | lexeme
    · refine .word ?_ fun _ => hstring
      rcases hmarked with rfl | rfl <;> rfl
    · exact .marked hmarked hstring
  rename_i hmarked
  simp only [Bool.or_eq_true, decide_eq_true_eq] at hmarked
  split
  · exact .word ‹_› fun hb => absurd hb hmarked
  rename_i hword
  split
  · exact .number (.inl ‹_›)
  · refine .unexpected ?_
    simp only [Bool.or_eq_true, not_or, Bool.not_eq_true] at hword
    exact hword.1.1

/-- The bytes that begin no symbol, and no string by themselves. -/
theorem head_of_bare (hb : beginsName b = true ∨ isDigit b = true) (rest : Bytes) :
    head b rest =
      if b = byteOf 'h' || b = byteOf 'H' then (string? 0 rest).getD (word b rest)
      else if beginsName b then word b rest
      else number b rest := by
  have hsymbol : ∀ b : UInt8, beginsName b = true ∨ isDigit b = true →
      punctuation? b = none ∧ alone? b = none ∧ isQuote b = false ∧ b ≠ 0x60 ∧
        b ∉ ['.', '=', '<', '>', '!', '@'].map byteOf := by
    decide +kernel
  obtain ⟨hpunctuation, halone, hquote, htick, hmark⟩ := hsymbol b hb
  simp only [List.map_cons, List.map_nil, List.mem_cons, List.not_mem_nil, or_false,
    not_or] at hmark
  obtain ⟨hdot, hequal, hless, hgreater, hmark, hat⟩ := hmark
  have hpair : pair? b rest = none := by
    simp [pair?, hdot, hequal, hless, hgreater, hmark]
  simp only [head, hpunctuation, hpair, halone, hquote, hdot, hmark, htick, hat]
  simp only [beginsName, Bool.or_eq_true] at hb ⊢
  grind

/-! ### Sound lexemes -/

/-- The first of two bytes that spell a symbol is no symbol that is always alone. -/
theorem punctuation?_of_pair? {kind : TokenKind} (h : pair? b rest = some kind) :
    punctuation? b = none := by
  obtain ⟨⟨c, d, k⟩, hrow, hk⟩ := List.exists_of_findSome?_eq_some h
  dsimp only at hk
  split at hk
  next hspelled =>
    simp only [Bool.and_eq_true, decide_eq_true_eq] at hspelled
    rw [hspelled.1]
    refine (?_ : ∀ x ∈ _, punctuation? (byteOf x.1) = none) (c, d, k) hrow
    decide
  next => cases hk

/-- A letter or a digit is the second byte of no symbol. -/
theorem pair?_of_startsWith {test : UInt8 → Bool} (h : startsWith test rest = true)
    (htest : ['.', '=', '~', '>'].any (fun c => test (byteOf c)) = false) : pair? b rest = none := by
  have hsecond : ∀ c ∈ ['.', '=', '~', '>'], startsWith (· = byteOf c) rest = false := by
    intro c hc
    rcases rest with _ | ⟨d, rest⟩
    · rfl
    · simp only [startsWith, decide_eq_false_iff_not] at h ⊢
      rintro rfl
      exact List.any_eq_false.1 htest c hc h
  simp only [List.mem_cons, List.not_mem_nil, or_false, forall_eq_or_imp, forall_eq] at hsecond
  simp [pair?, hsecond]

/-- A sound lexeme is determined by its form. -/
theorem head_eq (h : HeadOf b rest lexeme) (hsound : lexeme.fault = none) :
    head b rest = lexeme := by
  cases h with
  | mark h => simp only [head, h]
  | pair h => simp only [head, punctuation?_of_pair? h, h]
  | alone h hpair hpoint =>
    have hnone : ∀ b : UInt8, (alone? b).isSome = true → punctuation? b = none := by decide +kernel
    have hdigit : ¬(decide (b = byteOf '.') && startsWith isDigit rest) = true := by
      simpa using hpoint
    simp only [head, hnone b (by rw [h]; rfl), hpair, if_neg hdigit, h]
  | negated hb h =>
    have hpair : pair? (byteOf '!') rest = none := pair?_of_startsWith h rfl
    simp [head, hb, hpair, h, show punctuation? (byteOf '!') = none from rfl,
      show alone? (byteOf '!') = none from rfl, show byteOf '!' ≠ byteOf '.' by decide]
  | quoted h =>
    simp only [isQuote, Bool.or_eq_true, decide_eq_true_eq] at h
    rcases h with rfl | rfl <;> rfl
  | fenced hb h =>
    subst hb
    have hhead : head 0x60 rest =
      if startsFence (0x60 :: rest) then ofString (fenced 2 (rest.drop 2)) else unexpected := rfl
    rw [hhead, if_pos h]
  | @verbatim quote tail hb hquote hrest =>
    subst hb hrest
    have hhead : head (byteOf '@') (quote :: tail) =
      if isQuote quote then ofString (verbatim quote 1 tail) else unexpected := rfl
    rw [hhead, if_pos hquote]
  | marked hb h =>
    have hword : beginsName b = true := by rcases hb with rfl | rfl <;> rfl
    rw [head_of_bare (.inl hword), if_pos (by simpa using hb), h]
    rfl
  | word hb h =>
    rw [head_of_bare (.inl hb)]
    split
    next hmarked =>
      rw [h (by simpa using hmarked)]
      rfl
    next => rfl
  | number h =>
    rcases h with h | ⟨rfl, h⟩
    · have hdigit : ∀ b : UInt8, isDigit b = true →
          beginsName b = false ∧ b ∉ ['h', 'H'].map byteOf := by decide +kernel
      obtain ⟨hword, hmarked⟩ := hdigit b h
      rw [head_of_bare (.inr h), if_neg (by simpa using hmarked), if_neg (by simp [hword])]
    · have hpair : pair? (byteOf '.') rest = none := pair?_of_startsWith h rfl
      simp [head, hpair, h, show punctuation? (byteOf '.') = none from rfl]
  | unexpected hb => cases hsound

end Lexeme
end KustoFacts
