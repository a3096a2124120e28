import KustoFacts.Proofs.Query.Spelled
import KustoFacts.Proofs.Text.Cutting
import KustoFacts.Query.Unquoted

/-!
    Writing a text in quotes. Any text at all can be written as a string literal with escapes, and a
    text without line feeds as a verbatim one. What the lexer scans for and what the value of a
    literal is made of are told by two separate readings; a text that is written in quotes is one
    token to both of them, and its value is the text. -/

namespace KustoFacts

namespace Quoting

/-- A byte as it is written between single quotes. -/
def escape (b : UInt8) : Bytes :=
  if b = lineFeed then [backslash, byteOf 'n']
  else if b = carriageReturn then [backslash, byteOf 'r']
  else if b = tabByte then [backslash, byteOf 't']
  else if b = backslash || b = singleQuote then [backslash, b]
  else [b]

/-- A byte as it is written between single quotes that make a verbatim string. -/
def double (b : UInt8) : Bytes := if b = singleQuote then [b, b] else [b]

/-- A text in single quotes. -/
def quoted (v : Bytes) : Bytes := singleQuote :: (v.flatMap escape ++ [singleQuote])

/-- A text as a verbatim string in single quotes. -/
def verbatim (v : Bytes) : Bytes := byteOf '@' :: singleQuote :: (v.flatMap double ++ [singleQuote])

/-! ### Single bytes -/

/-- A byte is written as an escape that stands for it, or as itself where no reading stops at it. -/
theorem escape_cases (b : UInt8) :
    (∃ c, escape b = [backslash, c] ∧ Unquoted.escaped c = b ∧ c ≠ lineFeed) ∨
      escape b = [b] ∧ b ≠ lineFeed ∧ b ≠ backslash ∧ b ≠ singleQuote := by
  unfold escape
  split
  · rename_i h
    exact .inl ⟨_, rfl, h ▸ rfl, by decide⟩
  split
  · rename_i h
    exact .inl ⟨_, rfl, h ▸ rfl, by decide⟩
  split
  · rename_i h
    exact .inl ⟨_, rfl, h ▸ rfl, by decide⟩
  rename_i hfeed _ _
  split
  · rename_i h
    refine .inl ⟨b, rfl, ?_, hfeed⟩
    rcases (by simpa using h : b = backslash ∨ b = singleQuote) with rfl | rfl <;> rfl
  · rename_i h
    simp only [Bool.or_eq_true, decide_eq_true_eq, not_or] at h
    exact .inr ⟨rfl, hfeed, h⟩

/-! ### What the lexer reads -/

/-- The scan of a quoted string passes what is written and ends at the quote after it. -/
theorem quoted_written (v rest : Bytes) (read : Nat) :
    Lexeme.quoted singleQuote read (v.flatMap escape ++ singleQuote :: rest) =
      (read + (v.flatMap escape).length + 1, true) := by
  have hquote : singleQuote ≠ lineFeed ∧ singleQuote ≠ backslash := by decide
  induction v generalizing read with
  | nil =>
    rw [List.flatMap_nil, List.nil_append, Lexeme.quoted.eq_def]
    simp only [if_neg hquote.1, if_neg hquote.2, if_true, List.length_nil, Nat.add_zero]
  | cons b v ih =>
    rw [List.flatMap_cons, List.append_assoc, List.length_append]
    rcases escape_cases b with ⟨c, hb, -, hc⟩ | ⟨hb, hfeed, hslash, hquote⟩
    · rw [hb, List.cons_append, List.cons_append, Lexeme.quoted.eq_def]
      simp only [if_neg hc, if_neg (show backslash ≠ lineFeed by decide), if_true,
        List.nil_append, ih, List.length_cons, List.length_nil, Prod.mk.injEq, and_true]
      omega
    · rw [hb, List.cons_append, Lexeme.quoted.eq_def]
      simp only [if_neg hfeed, if_neg hslash, if_neg hquote, List.nil_append, ih, List.length_cons,
        List.length_nil, Prod.mk.injEq, and_true]
      omega

/-- The scan of a verbatim string passes doubled quotes and ends at a single one. -/
theorem verbatim_written {v rest : Bytes} (hv : lineFeed ∉ v)
    (hrest : rest.head? ≠ some singleQuote) (read : Nat) :
    Lexeme.verbatim singleQuote read (v.flatMap double ++ singleQuote :: rest) =
      (read + (v.flatMap double).length + 1, true) := by
  have hquote : singleQuote ≠ lineFeed := by decide
  induction v generalizing read with
  | nil =>
    rcases rest with _ | ⟨c, rest⟩
    · rfl
    · have hc : c ≠ singleQuote := by simpa using hrest
      rw [List.flatMap_nil, List.nil_append, Lexeme.verbatim.eq_def]
      simp only [if_neg hquote, if_neg hc, if_true, List.length_nil, Nat.add_zero]
  | cons b v ih =>
    obtain ⟨hb, hrests⟩ := not_or.1 (mt List.mem_cons.2 hv)
    rw [List.flatMap_cons, List.append_assoc, List.length_append]
    by_cases h : b = singleQuote
    · subst h
      rw [double, if_pos rfl, List.cons_append, List.cons_append, Lexeme.verbatim.eq_def]
      simp only [if_neg hquote, if_true, List.nil_append, ih hrests, List.length_cons,
        List.length_nil, Prod.mk.injEq, and_true]
      omega
    · rw [double, if_neg h, List.cons_append, Lexeme.verbatim.eq_def]
      simp only [if_neg (Ne.symm hb : b ≠ lineFeed), if_neg h, List.nil_append, ih hrests,
        List.length_cons, List.length_nil, Prod.mk.injEq, and_true]
      omega

/-- A text in quotes is one token, whatever follows it. -/
theorem spells_quoted (v rest : Bytes) : Lexeme.Spells .string rest (quoted v) := by
  refine ⟨rfl, ?_⟩
  have hhead (tail : Bytes) : Lexeme.head singleQuote tail =
      Lexeme.ofString (Lexeme.quoted singleQuote 0 tail) := rfl
  rw [hhead, List.append_assoc, List.singleton_append, quoted_written, List.length_append]
  simp [Lexeme.ofString]

/-- A text as a verbatim string is one token, unless one more quote follows. -/
theorem spells_verbatim {v rest : Bytes} (hv : lineFeed ∉ v)
    (hrest : rest.head? ≠ some singleQuote) : Lexeme.Spells .string rest (verbatim v) := by
  refine ⟨rfl, ?_⟩
  have hhead (tail : Bytes) : Lexeme.head (byteOf '@') (singleQuote :: tail) =
      Lexeme.ofString (Lexeme.verbatim singleQuote 1 tail) := rfl
  rw [List.cons_append, hhead, List.append_assoc, List.singleton_append,
    verbatim_written hv hrest, List.length_cons, List.length_append, Nat.add_comm 1]
  rfl

/-! ### What the literals stand for -/

theorem readEscapes_cons {b : UInt8} (hb : b ≠ backslash) (rest : Bytes) :
    Unquoted.readEscapes (b :: rest) = b :: Unquoted.readEscapes rest := by
  rcases rest with _ | ⟨c, rest⟩
  · rfl
  · rw [Unquoted.readEscapes, if_neg hb]

theorem undouble_cons {quote b : UInt8} (hb : b ≠ quote) (rest : Bytes) :
    Unquoted.undouble quote (b :: rest) = b :: Unquoted.undouble quote rest := by
  rcases rest with _ | ⟨c, rest⟩
  · rfl
  · simp [Unquoted.undouble, hb]

/-- Escapes are read back. -/
theorem readEscapes_written (v : Bytes) : Unquoted.readEscapes (v.flatMap escape) = v := by
  induction v with
  | nil => rfl
  | cons b v ih =>
    rw [List.flatMap_cons]
    rcases escape_cases b with ⟨c, hb, hc, -⟩ | ⟨hb, -, hslash, -⟩
    · rw [hb, List.cons_append, List.singleton_append, Unquoted.readEscapes, if_pos rfl, hc, ih]
    · rw [hb, List.singleton_append, readEscapes_cons hslash, ih]

/-- Doubled quotes are made single again. -/
theorem undouble_written (v : Bytes) : Unquoted.undouble singleQuote (v.flatMap double) = v := by
  induction v with
  | nil => rfl
  | cons b v ih =>
    rw [List.flatMap_cons, double]
    split
    · rename_i h
      subst h
      simp [Unquoted.undouble, ih]
    · rename_i h
      rw [List.singleton_append, undouble_cons h, ih]

/-- A text in quotes stands for the text. -/
theorem value_quoted (v : Bytes) : Unquoted.value (quoted v) = v := by
  have hvalue (rest : Bytes) : Unquoted.value (singleQuote :: rest) =
      Unquoted.readEscapes (Bytes.withoutEnding rest [singleQuote]) := rfl
  rw [quoted, hvalue, Bytes.withoutEnding_append, readEscapes_written]

/-- A text as a verbatim string stands for the text. -/
theorem value_verbatim (v : Bytes) : Unquoted.value (verbatim v) = v := by
  have hvalue (rest : Bytes) : Unquoted.value (byteOf '@' :: singleQuote :: rest) =
      Unquoted.undouble singleQuote (Bytes.withoutEnding rest [singleQuote]) := rfl
  rw [verbatim, hvalue, Bytes.withoutEnding_append, undouble_written]

end Quoting
end KustoFacts
