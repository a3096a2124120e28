import KustoFacts.Proofs.Query.Comments
import KustoFacts.Proofs.Query.Lossless
import KustoFacts.Proofs.Query.OwnText
import KustoFacts.Proofs.Query.Spelled

/-!
    White space between tokens. What a token is depends on its own bytes and on where they end, and
    any layout ends them as well as any other. So a text that is read without faults and has no
    comments between its tokens can be written with other layout: its tokens, with layout after
    each, are read as the same tokens. -/

namespace KustoFacts

open KustoFacts.Lexeme

/-- Only spaces, tabs, carriage returns and line feeds. -/
def IsLayout (s : Bytes) : Prop := ∀ b ∈ s, b ∈ [spaceByte, tabByte, carriageReturn, lineFeed]

instance : DecidablePred IsLayout := fun s =>
  List.decidableBAll (· ∈ [spaceByte, tabByte, carriageReturn, lineFeed]) s

/-- Between any two tokens that follow one another in a text there is only layout. -/
def NoComments (text : Bytes) (ts : List Token) : Prop :=
  ts.IsChain fun t u => IsLayout (text.extract t.stop u.pos.offset)

/-- The texts of tokens one after another, with some layout between any two of them, and with or
    without layout after the last. -/
inductive Spaced : List Token → Bytes → Prop where
  | nil : Spaced [] []
  | last (t : Token) {s : Bytes} (hs : IsLayout s) : Spaced [t] (t.text ++ s)
  | cons (t : Token) {u : Token} {ts : List Token} {s rest : Bytes} (hs : IsLayout s)
      (hne : s ≠ []) (hrest : Spaced (u :: ts) rest) :
      Spaced (t :: u :: ts) (t.text ++ (s ++ rest))

/-! ### Layout -/

section Layout

variable {s : Bytes} {c : UInt8}

/-- A byte of layout ends every token, and begins none. -/
theorem layout_mem : ∀ c ∈ [spaceByte, tabByte, carriageReturn, lineFeed],
    isLayoutByte c = true ∧ decide (c = byteOf '/') = false ∧ isWordByte c = false ∧
      isQuote c = false ∧ c ∉ [byteOf '.', byteOf '=', byteOf '~', byteOf '>', byteOf '+',
        byteOf '-', byteOf '@', 0x60] := by
  decide +kernel

/-- A body is opened through layout. -/
theorem opens_layout (hs : IsLayout s) (rest : Bytes) : opens (s ++ rest) = opens rest := by
  induction s with
  | nil => rfl
  | cons c s ih =>
    obtain ⟨hc, hs⟩ := List.forall_mem_cons.1 hs
    rw [List.cons_append, opens_cons (layout_mem c hc).1, ih hs]

/-- Layout is passed. -/
theorem Tokens.readFrom_layout (hs : IsLayout s) (pos : Position) (tokens : List Token)
    (diagnostics : List Diagnostic) (rest : Bytes) :
    readFrom 0 false pos tokens diagnostics (s ++ rest) =
      readFrom 0 false (pos.advance s) tokens diagnostics rest := by
  induction s generalizing pos with
  | nil => rfl
  | cons c s ih =>
    obtain ⟨hc, hs⟩ := List.forall_mem_cons.1 hs
    rw [List.cons_append, readFrom, if_neg (Nat.lt_irrefl 0), if_neg Bool.false_ne_true,
      if_pos (layout_mem c hc).1]
    exact ih hs _

end Layout

/-! ### Single tokens -/

namespace Lexeme.Spells

variable {kind : TokenKind} {text rest : Bytes}

/-- A token that is spelled in a text is spelled by itself. -/
theorem alone (h : Spells kind rest text) : Spells kind [] text := by
  rcases text with _ | ⟨b, tail⟩
  · exact h
  obtain ⟨hpass, hhead⟩ := h
  obtain ⟨-, -, -, hlayout, hslash⟩ := Tokens.pass?_token hpass
  rw [Spells, List.append_nil]
  refine ⟨?_, (head_own (by rw [hhead]; rfl) (by rw [hhead]; rfl)).trans hhead⟩
  have hcomment : ¬(decide (b = byteOf '/') && startsWith (· = byteOf '/') tail) = true := by
    rw [Bool.and_eq_true, decide_eq_true_eq]
    rintro ⟨hb, htail⟩
    rcases tail with _ | ⟨c, tail⟩
    · cases htail
    · rw [List.cons_append] at hslash
      exact absurd htail (by simpa [startsWith] using hslash hb)
  simp [Tokens.pass?, hlayout, hcomment]

/-- A token that is spelled by itself is spelled before layout, unless it is the name of a typed
    literal and a body is opened after it. -/
theorem before_layout (h : Spells kind [] text)
    (hrest : ∀ c ∈ rest.head?, c ∈ [spaceByte, tabByte, carriageReturn, lineFeed])
    (hopens : kind = .word → typedLiteralWords.contains text = true → opens rest = false) :
    Spells kind rest text := by
  refine h.before (fun c hc => ?_) (fun c hc => (layout_mem c (hrest c hc)).2.1) hopens
  obtain ⟨-, -, hword, hquote, hmark⟩ := layout_mem c (hrest c hc)
  exact ⟨hword, hquote, hmark⟩

/-- After the name of a typed literal that is a word no body is opened. -/
theorem not_opens (h : Spells .word rest text)
    (htyped : typedLiteralWords.contains text = true) : opens rest = false := by
  rcases text with _ | ⟨b, tail⟩
  · exact h.elim
  obtain ⟨-, hhead⟩ := h
  have hword := @typed_word b (tail ++ rest)
  simp only [hhead, sound, List.take_left, List.drop_left] at hword
  exact (hword trivial htyped).2

/-- Before a token a body is opened if the token is a parenthesis. -/
theorem opens_append (h : Spells kind rest text) (rest' : Bytes) :
    opens (text ++ rest') = startsWith (· = byteOf '(') text := by
  rcases text with _ | ⟨b, tail⟩
  · exact h.elim
  obtain ⟨-, -, -, hlayout, -⟩ := Tokens.pass?_token h.1
  rw [List.cons_append, opens_cons_of_not hlayout]
  rfl

end Lexeme.Spells

namespace Lexer

variable {l after : Lexer} {t : Token} {r : Tokens} {text before written : Bytes}

/-- A token that is read without a fault is spelled where it stands. -/
theorem Takes.spells {b : UInt8} {rest : Bytes} (h : Takes l b rest t after)
    (hclean : after.diagnostics = []) :
    Spells t.kind after.rest t.text ∧ l.diagnostics = [] := by
  have hnone := hclean
  rw [h.diagnostics, List.append_eq_nil_iff, Tokens.faultsAt, List.map_eq_nil_iff,
    Option.toList_eq_nil_iff] at hnone
  have hlength : (rest.take (head b rest).more).length = (head b rest).more :=
    List.length_take_of_le (head_le b rest)
  have htext : t.text = b :: rest.take (head b rest).more := by rw [h.token]; rfl
  have hkind : t.kind = (head b rest).kind := by rw [h.token]; rfl
  refine ⟨?_, hnone.2⟩
  rw [htext, hkind, h.left, Spells, List.take_append_drop, hlength]
  refine ⟨pass?_drop_gap h.gap, ?_⟩
  rw [sound, ← hnone.1]

/-- A lexer that finds nothing wrong has found nothing wrong before. -/
theorem Yields.clean (h : Yields l r) (hclean : r.diagnostics = []) : l.diagnostics = [] := by
  induction h with
  | ending hnext hkind =>
    obtain ⟨skipped, hreads⟩ := reads_next hnext
    obtain ⟨-, -, hsame⟩ := hreads.ending hkind
    rw [← hsame]
    exact List.reverse_eq_nil_iff.1 hclean
  | token hnext hkind _ ih =>
    obtain ⟨b, rest, htakes⟩ := takes_next hnext hkind
    exact (htakes.spells (ih hclean)).2

/-- After a token, a body is opened if the next token is a parenthesis. -/
theorem Yields.opens_rest (h : Yields l r) (hclean : r.diagnostics = []) (hat : At text before l)
    {u : Token} {ts : List Token} (htokens : r.tokens = u :: ts)
    (hlayout : IsLayout (text.extract before.length u.pos.offset)) :
    ∃ rest, Spells u.kind rest u.text ∧ opens l.rest = startsWith (· = byteOf '(') u.text := by
  cases h with
  | ending => cases htokens
  | @token l after t r hnext hkind hrest =>
    cases htokens
    obtain ⟨skipped, hreads⟩ := reads_next hnext
    obtain ⟨b, rest, htakes⟩ := takes_next hnext hkind
    obtain ⟨hspells, -⟩ := htakes.spells (hrest.clean hclean)
    obtain ⟨-, -, hskipped⟩ := hreads.offset hat
    rw [hskipped] at hlayout
    refine ⟨after.rest, hspells, ?_⟩
    rw [hreads.rest, List.append_assoc, opens_layout hlayout, hspells.opens_append]

/-- Tokens that were read from a text are read where they are spaced. -/
theorem Yields.spaced (h : Yields l r) (hclean : r.diagnostics = []) (hat : At text before l)
    (hcomments : NoComments text r.tokens) (hs : Spaced r.tokens written) (pos : Position)
    (tokens : List Token) :
    ∃ ts pos', Tokens.readFrom 0 false pos tokens [] written =
        .ok ⟨tokens.reverse ++ ts, .endAt pos', []⟩ ∧
      ts.map (fun t => (t.kind, t.text)) = r.tokens.map fun t => (t.kind, t.text) := by
  induction h generalizing before written pos tokens with
  | ending =>
    cases hs
    exact ⟨[], pos, by rw [List.append_nil]; rfl, rfl⟩
  | @token l after t r hnext hkind hrest ih =>
    obtain ⟨skipped, hreads⟩ := reads_next hnext
    obtain ⟨hafter, hstop⟩ := hreads.at hat
    obtain ⟨b, rest, htakes⟩ := takes_next hnext hkind
    obtain ⟨hspells, -⟩ := htakes.spells (hrest.clean hclean)
    -- the token is read where it stands now, and then the rest is
    have hread {s rest : Bytes} (hlayout : IsLayout s) (hhead : Spells t.kind (s ++ rest) t.text)
        (hrest : Spaced r.tokens rest) (hchain : NoComments text r.tokens) :
        ∃ ts pos', Tokens.readFrom 0 false pos tokens [] (t.text ++ (s ++ rest)) =
            .ok ⟨tokens.reverse ++ ts, .endAt pos', []⟩ ∧
          ts.map (fun t => (t.kind, t.text)) =
            (t :: r.tokens).map fun t => (t.kind, t.text) := by
      rw [Tokens.readFrom_token hhead, Tokens.readFrom_layout hlayout]
      obtain ⟨ts, pos', hts, hmap⟩ :=
        ih hclean hafter hchain hrest _ (.ofText t.kind t.text pos :: tokens)
      refine ⟨.ofText t.kind t.text pos :: ts, pos', ?_, by simp [hmap]⟩
      rw [hts]
      simp
    dsimp only at hcomments
    generalize htokens : r.tokens = us at hs hcomments hread
    cases hs with
    | @last _ s hlayout =>
      have hhead : Spells t.kind (s ++ []) t.text := by
        rw [List.append_nil]
        refine hspells.alone.before_layout (fun c hc => hlayout c (List.mem_of_mem_head? hc)) ?_
        intro _ _
        rw [← List.append_nil s, opens_layout hlayout]
        rfl
      have hlast := hread hlayout hhead .nil .nil
      rwa [List.append_nil] at hlast
    | @cons _ u ts s rest hlayout hne hspaced =>
      obtain ⟨hgap, hchain⟩ := List.isChain_cons_cons.1 hcomments
      rw [hstop] at hgap
      obtain ⟨x, hnext, hopens⟩ := hrest.opens_rest hclean hafter htokens hgap
      refine hread hlayout (hspells.alone.before_layout ?_ ?_) hspaced hchain
      · rcases s with _ | ⟨c, s⟩
        · exact absurd rfl hne
        · rintro d ⟨⟩
          exact hlayout c List.mem_cons_self
      · intro hword htyped
        rw [hword] at hspells
        have hnot := hspells.not_opens htyped
        rw [hopens] at hnot
        rw [opens_layout hlayout]
        cases hspaced <;> rwa [hnext.opens_append]

end Lexer

/-- White space between tokens counts for nothing. A text that is read without faults and has no
    comments between its tokens may be written with any other layout between them, before the first
    and after the last: its tokens are read again, without faults. -/
theorem tokenize_spaced {text before written : Bytes} {r : Tokens} (h : tokenize text = .ok r)
    (hclean : r.diagnostics = []) (hcomments : NoComments text r.tokens)
    (hbefore : IsLayout before) (hs : Spaced r.tokens written) :
    ∃ r', tokenize (before ++ written) = .ok r' ∧ r'.diagnostics = [] ∧
      r'.all.map (fun t => (t.kind, t.text)) = r.all.map fun t => (t.kind, t.text) := by
  have hyields : (Lexer.ofText text).Yields r := Lexer.yields_of_tokens h
  have hat : Lexer.At text [] (Lexer.ofText text) := ⟨rfl, rfl⟩
  obtain ⟨-, -, -, hending⟩ := hyields.stands hat
  obtain ⟨ts, pos', hts, hmap⟩ :=
    hyields.spaced hclean hat hcomments hs (Position.start.advance before) []
  refine ⟨_, (Tokens.readFrom_layout hbefore _ _ _ _).trans hts, rfl, ?_⟩
  simp [Tokens.all, hmap, hending, Token.endAt]

/-- The name of a typed literal as a word, and one with its body. -/
theorem tokenize_spaced_names : ∃ r r', tokenize (bytes "int|int (1)") = .ok r ∧
    tokenize (bytes "  " ++ (bytes "int" ++ (bytes "\r\n" ++ (bytes "|" ++ (bytes "\t " ++
      (bytes "int (1)" ++ bytes " ")))))) = .ok r' ∧ r'.diagnostics = [] ∧
      r'.all.map (fun t => (t.kind, t.text)) = r.all.map fun t => (t.kind, t.text) := by
  obtain ⟨r, hr, hclean, hcomments, hs⟩ : ∃ r, tokenize (bytes "int|int (1)") = .ok r ∧
      r.diagnostics = [] ∧ NoComments (bytes "int|int (1)") r.tokens ∧
      Spaced r.tokens (bytes "int" ++ (bytes "\r\n" ++ (bytes "|" ++ (bytes "\t " ++
        (bytes "int (1)" ++ bytes " "))))) := by
    refine ⟨_, rfl, rfl, ?_, ?_⟩
    · exact .cons_cons (by decide) (.cons_cons (by decide) (.singleton _))
    · exact .cons _ (by decide) (by decide) (.cons _ (by decide) (by decide) (.last _ (by decide)))
  obtain ⟨r', hspaced⟩ := tokenize_spaced hr hclean hcomments
    (show IsLayout (bytes "  ") by decide) hs
  exact ⟨r, r', hr, hspaced⟩

end KustoFacts
