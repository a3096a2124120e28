import KustoFacts.Proofs.Query.Lexer

/-!
    Texts written token by token. Where the tokens of a text are known before it is read, reading the
    text is taking one of them after another, and parsing it is running the steps of the grammar on
    states of which the next tokens are known. -/

namespace KustoFacts

namespace Token

/-- The token that is spelled by a text at a place. -/
def ofText (kind : TokenKind) (text : Bytes) (p : Position) : Token :=
  ⟨kind, text, p, p.offset + text.length⟩

@[simp] theorem kind_ofText (kind : TokenKind) (text : Bytes) (p : Position) :
    (ofText kind text p).kind = kind := rfl

@[simp] theorem text_ofText (kind : TokenKind) (text : Bytes) (p : Position) :
    (ofText kind text p).text = text := rfl

end Token

/-! ### Reading a text -/

/-- A text is one sound token of a kind where a rest follows it. -/
def Lexeme.Spells (kind : TokenKind) (rest : Bytes) : Bytes → Prop
  | [] => False
  | b :: tail =>
    Tokens.pass? 0 false b (tail ++ rest) = none ∧ head b (tail ++ rest) = sound kind tail.length

section Spells

variable {kind : TokenKind} {text rest : Bytes}

/-- A token that is spelled by itself is spelled before what ends it, unless it is the name of a
    typed literal and a body is opened after it. -/
theorem Lexeme.Spells.before (h : Spells kind [] text) (hends : Ends rest)
    (hslash : ∀ c ∈ rest.head?, decide (c = byteOf '/') = false)
    (hopens : kind = .word → typedLiteralWords.contains text = true → opens rest = false) :
    Spells kind rest text := by
  rcases text with _ | ⟨b, tail⟩
  · exact h.elim
  obtain ⟨hpass, hhead⟩ := h
  rw [List.append_nil] at hpass hhead
  refine ⟨by simpa only [Tokens.pass?, startsWith_ends hslash] using hpass, ?_⟩
  have hsettled := @head_settled b tail [] rest .nil hends (fun _ => by rw [List.append_nil])
  simp only [List.append_nil] at hsettled
  rw [hsettled ?_ (head_le b tail) (.inl (by rw [hhead]; rfl)), hhead]
  intro k hk htyped _
  rw [hhead] at hk
  obtain ⟨hkind, rfl⟩ : kind = .word ∧ tail.length = k := by simpa [sound] using hk
  rw [List.take_length] at htyped
  rw [List.drop_length, List.nil_append]
  exact hopens hkind htyped

end Spells

namespace Tokens

variable {kind : TokenKind} {text rest : Bytes}

/-- A token that is spelled at the head of a text is read first. -/
theorem readFrom_token (h : Lexeme.Spells kind rest text) (pos : Position) (tokens : List Token)
    (diagnostics : List Diagnostic) :
    readFrom 0 false pos tokens diagnostics (text ++ rest) =
      readFrom 0 false (pos.advance text) (.ofText kind text pos :: tokens) diagnostics rest := by
  rcases text with _ | ⟨b, tail⟩
  · exact h.elim
  obtain ⟨hpass, hhead⟩ := h
  have htoken : tokenAt pos b (tail ++ rest) = .ofText kind (b :: tail) pos := by
    rw [tokenAt, hhead]
    simp [Lexeme.sound, Token.ofText]
    omega
  have hfaults : faultsAt pos b (tail ++ rest) = [] := by
    rw [faultsAt, hhead]
    rfl
  rw [readFrom_onto, List.cons_append, readFrom_cons, hpass, readFrom_onto _ _ _ (_ :: tokens)]
  simp only [htoken, hfaults, hhead, Lexeme.sound, reduceCtorEq, if_false]
  rw [Lexer.readFrom_skip _ _ (by simp), List.take_left, List.drop_left, Position.advance_cons]
  rcases readFrom 0 false ((pos.step b).advance tail) [] [] rest with e | r
  · rfl
  · simp [Except.map, onto]

/-- A text that is one token to its end. -/
theorem tokenize_spelled (h : Lexeme.Spells kind [] text) :
    tokenize text =
      .ok ⟨[.ofText kind text .start], .endAt (Position.start.advance text), []⟩ := by
  have hread := readFrom_token h .start [] []
  rw [List.append_nil] at hread
  rw [tokenize, hread]
  rfl

end Tokens

/-! ### Running the parser -/

/-- A state further on, in which some tokens are left and what was consumed ends at an offset. -/
def ParserState.upTo (s : ParserState) (prevEnd : Nat) (tokens : List Token) : ParserState :=
  { s with tokens := tokens, prevEnd := prevEnd }

theorem ParserState.current_upTo (s : ParserState) (prevEnd : Nat) (t : Token) (ts : List Token) :
    (s.upTo prevEnd (t :: ts)).current = t := rfl

theorem ParserState.advance_upTo (s : ParserState) (prevEnd : Nat) (t : Token) (ts : List Token) :
    (s.upTo prevEnd (t :: ts)).advance = s.upTo t.stop ts := rfl

theorem Parser.run_bind_some {α β : Type} {p : Parser α} {f : α → Parser β} {a : α}
    {s t : ParserState} (h : p.run s = (some a, t)) : (p >>= f).run s = (f a).run t := by
  rw [run_bind, h]

end KustoFacts
