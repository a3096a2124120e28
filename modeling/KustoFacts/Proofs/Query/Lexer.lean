import KustoFacts.Proofs.Query.Tokens

/-!
    Token by token. A lexer stands between two tokens; asked for the next one, it passes the gap of
    layout and comments before it and reads it off, and at the end of the text it stays where it is.
    Reading a whole text byte by byte comes to the same as asking for one token after another. -/

namespace KustoFacts

@[simp] theorem Position.advance_nil (p : Position) : p.advance [] = p := rfl

@[simp] theorem Position.advance_cons (p : Position) (b : UInt8) (text : Bytes) :
    p.advance (b :: text) = (p.step b).advance text := rfl

theorem Position.advance_append (p : Position) (a b : Bytes) :
    p.advance (a ++ b) = (p.advance a).advance b := List.foldl_append

/-- A lexer between two tokens: where it stands, the text from there on, and what was found to be
    wrong so far, latest first. -/
structure Lexer where
  pos : Position
  rest : Bytes
  diagnostics : List Diagnostic

namespace Lexer

/-- A lexer at the beginning of a text. -/
def ofText (text : Bytes) : Lexer := ⟨.start, text, []⟩

/-- The length of the gap at the head of a text, which may begin inside a comment. -/
def gap (comment : Bool) : Bytes → Nat
  | [] => 0
  | b :: rest =>
    if comment then gap (b != lineFeed) rest + 1
    else if isLayoutByte b then gap false rest + 1
    else if b = byteOf '/' && Lexeme.startsWith (· = byteOf '/') rest then gap true rest + 1
    else 0

/-- The next token, and the lexer after it. -/
def next (l : Lexer) : Except Overrun (Token × Lexer) :=
  let length := gap false l.rest
  let pos := l.pos.advance (l.rest.take length)
  match l.rest.drop length with
  | [] => .ok (Token.endAt pos, ⟨pos, [], l.diagnostics⟩)
  | b :: rest =>
    let lexeme := Lexeme.head b rest
    if lexeme.fault = some .escapeAtEnd then .error ⟨pos.offset + 1 + rest.length⟩
    else
      let after := pos.advance (b :: rest.take lexeme.more)
      .ok (Tokens.tokenAt pos b rest,
        ⟨after, rest.drop lexeme.more, Tokens.faultsAt pos b rest ++ l.diagnostics⟩)

/-- The next tokens, as many as asked for, and the lexer after them. -/
def read : Nat → Lexer → Except Overrun (List Token × Lexer)
  | 0, l => .ok ([], l)
  | n + 1, l => do
    let (t, l) ← l.next
    let (ts, l) ← l.read n
    return (t :: ts, l)

/-- All tokens from where a lexer stands on, read byte by byte. -/
def tokens (l : Lexer) : Except Overrun Tokens :=
  Tokens.readFrom 0 false l.pos [] l.diagnostics l.rest

section Bytewise

variable (tokens : List Token) (diagnostics : List Diagnostic)

/-- The bytes of the token read last are passed. -/
theorem readFrom_skip {skip : Nat} {pos : Position} {text : Bytes} (h : skip ≤ text.length) :
    Tokens.readFrom skip false pos tokens diagnostics text =
      Tokens.readFrom 0 false (pos.advance (text.take skip)) tokens diagnostics
        (text.drop skip) := by
  induction text generalizing skip pos with
  | nil =>
    obtain rfl : skip = 0 := Nat.le_zero.1 h
    rfl
  | cons b rest ih =>
    cases skip with
    | zero => rfl
    | succ skip =>
      rw [Tokens.readFrom, if_pos (Nat.succ_pos skip), Nat.add_sub_cancel]
      exact ih (Nat.le_of_succ_le_succ h)

/-- The gap before a token is passed. -/
theorem readFrom_gap (comment : Bool) (pos : Position) (text : Bytes) :
    Tokens.readFrom 0 comment pos tokens diagnostics text =
      Tokens.readFrom 0 false (pos.advance (text.take (gap comment text))) tokens diagnostics
        (text.drop (gap comment text)) := by
  induction text generalizing comment pos with
  | nil => rfl
  | cons b rest ih =>
    cases comment with
    | true =>
      have hgap : gap true (b :: rest) = gap (b != lineFeed) rest + 1 := by simp [gap]
      rw [hgap, List.take_succ_cons, List.drop_succ_cons, Position.advance_cons, ← ih]
      simp [Tokens.readFrom]
    | false =>
      by_cases hlayout : isLayoutByte b
      · have hgap : gap false (b :: rest) = gap false rest + 1 := by simp [gap, hlayout]
        rw [hgap, List.take_succ_cons, List.drop_succ_cons, Position.advance_cons, ← ih]
        simp [Tokens.readFrom, hlayout]
      · by_cases hslash : (b = byteOf '/' && Lexeme.startsWith (· = byteOf '/') rest) = true
        · have hgap : gap false (b :: rest) = gap true rest + 1 := by
            simp only [gap, hlayout, hslash, if_true, Bool.false_eq_true, if_false]
          rw [hgap, List.take_succ_cons, List.drop_succ_cons, Position.advance_cons, ← ih]
          simp only [Tokens.readFrom, hlayout, hslash, if_true, Bool.false_eq_true, if_false,
            Nat.lt_irrefl]
        · have hgap : gap false (b :: rest) = 0 := by
            simp only [gap, hlayout, hslash, Bool.false_eq_true, if_false]
          rw [hgap]
          rfl

end Bytewise

/-- With what a gap stops, a token begins. -/
theorem pass?_drop_gap {comment : Bool} {text : Bytes} {b : UInt8} {rest : Bytes}
    (h : text.drop (gap comment text) = b :: rest) : Tokens.pass? 0 false b rest = none := by
  induction text generalizing comment with
  | nil => cases h
  | cons c text ih =>
    unfold gap at h
    split at h
    · exact ih h
    split at h
    · exact ih h
    split at h
    · exact ih h
    · cases h
      simp_all [Tokens.pass?]

/-- Reading on is asking for a token and then reading on. -/
theorem tokens_eq (l : Lexer) :
    l.tokens =
      match l.next with
      | .error e => .error e
      | .ok (t, after) =>
        if t.kind = .endOfInput then .ok ⟨[], t, after.diagnostics.reverse⟩
        else after.tokens.map (Tokens.onto [t] []) := by
  rw [tokens, readFrom_gap, next]
  generalize l.pos.advance (l.rest.take (gap false l.rest)) = pos
  cases hrest : l.rest.drop (gap false l.rest) with
  | nil => rfl
  | cons b rest =>
    rw [Tokens.readFrom_onto, Tokens.readFrom_cons, pass?_drop_gap hrest]
    dsimp only
    split
    · rfl
    · have hkind : (Tokens.tokenAt pos b rest).kind ≠ .endOfInput := Lexeme.kind_head b rest
      simp only [if_neg hkind, tokens, Position.advance_cons]
      rw [← readFrom_skip _ _ (Lexeme.head_le b rest), Tokens.readFrom_onto _ _ _ [] (_ ++ _)]
      rcases Tokens.readFrom (Lexeme.head b rest).more false (pos.step b) [] [] rest with e | r
      · rfl
      · simp [Except.map, Tokens.onto]

/-- What asking for tokens up to the one that ends the text comes to. -/
inductive Yields : Lexer → Tokens → Prop where
  | ending {l after : Lexer} {t : Token} (hnext : l.next = .ok (t, after))
      (hkind : t.kind = .endOfInput) : Yields l ⟨[], t, after.diagnostics.reverse⟩
  | token {l after : Lexer} {t : Token} {r : Tokens} (hnext : l.next = .ok (t, after))
      (hkind : t.kind ≠ .endOfInput) (hrest : Yields after r) :
      Yields l ⟨t :: r.tokens, r.ending, r.diagnostics⟩

/-- Reading byte by byte finds the tokens that asking for them yields. -/
theorem yields_of_tokens {l : Lexer} {r : Tokens} (h : l.tokens = .ok r) : Yields l r := by
  induction hlength : r.tokens.length using Nat.strongRecOn generalizing l r with
  | ind n ih =>
    rw [tokens_eq] at h
    rcases hnext : l.next with e | ⟨t, after⟩ <;> simp only [hnext] at h
    · cases h
    · split at h
      · cases h
        exact .ending hnext ‹_›
      · rcases hafter : after.tokens with e | r' <;> rw [hafter] at h <;> cases h
        exact .token hnext ‹_› (ih r'.tokens.length (by simp [← hlength, Tokens.onto]) hafter rfl)

/-- A lexer at the end of its text stays there. -/
theorem read_at_end (n : Nat) (pos : Position) (diagnostics : List Diagnostic) :
    read n ⟨pos, [], diagnostics⟩ =
      .ok (List.replicate n (Token.endAt pos), ⟨pos, [], diagnostics⟩) := by
  induction n with
  | zero => rfl
  | succ n ih =>
    have hnext : next ⟨pos, [], diagnostics⟩ = .ok (Token.endAt pos, ⟨pos, [], diagnostics⟩) := rfl
    rw [read, hnext]
    simp [bind, Except.bind, ih, pure, Except.pure, List.replicate_succ]

end Lexer
end KustoFacts
