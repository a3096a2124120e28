import KustoFacts.Proofs.Query.Frame
import KustoFacts.Proofs.Query.Settled
import KustoFacts.Query.Tokens

/-!
    Token lists. Every token stands in the text it was read from, and the same text read from another
    place has the same tokens there. A text that is read without faults is read in the same way when
    a line feed and a token that begins with a byte of its own follow it, so that a text can be cut
    at such a byte into parts that are read one by one. -/

namespace KustoFacts

/-- What was read, with tokens and diagnostics found before, latest first. -/
def Tokens.onto (tokens : List Token) (diagnostics : List Diagnostic) (r : Tokens) : Tokens :=
  ⟨tokens.reverse ++ r.tokens, r.ending, diagnostics.reverse ++ r.diagnostics⟩

/-- The text of a token and its range in a text that begins at a place. -/
structure Token.Stands (start length : Nat) (t : Token) : Prop where
  kind : t.kind ≠ .endOfInput
  after : start ≤ t.pos.offset
  offset : t.pos.offset ≤ start + length
  stop : t.stop ≤ start + length

@[simp] theorem Position.offset_step (p : Position) (b : UInt8) :
    (p.step b).offset = p.offset + 1 := by
  unfold step
  split <;> rfl

namespace Tokens

variable {skip : Nat} {comment : Bool} {pos : Position} {text : Bytes} {r : Tokens}

/-- What was found before only stands in front. -/
theorem readFrom_onto (skip : Nat) (comment : Bool) (pos : Position) (tokens : List Token)
    (diagnostics : List Diagnostic) (text : Bytes) :
    readFrom skip comment pos tokens diagnostics text =
      (readFrom skip comment pos [] [] text).map (onto tokens diagnostics) := by
  induction text generalizing skip comment pos tokens diagnostics with
  | nil => simp [readFrom, onto, Except.map]
  | cons b rest ih =>
    unfold readFrom
    split
    · exact ih ..
    split
    · exact ih ..
    split
    · exact ih ..
    split
    · exact ih ..
    dsimp only
    split
    · rfl
    · rw [ih, ih _ _ _ [_]]
      rcases readFrom (Lexeme.head b rest).more false (pos.step b) [] [] rest with e | r
      · rfl
      · simp [Except.map, onto]

/-- The token that a lexeme makes at a place. -/
def tokenAt (pos : Position) (b : UInt8) (rest : Bytes) : Token :=
  let more := (Lexeme.head b rest).more
  ⟨(Lexeme.head b rest).kind, b :: rest.take more, pos, pos.offset + 1 + more⟩

/-- What is wrong with a lexeme at a place. -/
def faultsAt (pos : Position) (b : UInt8) (rest : Bytes) : List Diagnostic :=
  (Lexeme.head b rest).fault.toList.map fun fault =>
    ⟨pos, pos.offset + 1 + (Lexeme.head b rest).more, report b fault⟩

/-- How reading goes on after a byte with which no token begins. -/
def pass? (skip : Nat) (comment : Bool) (b : UInt8) (rest : Bytes) : Option (Nat × Bool) :=
  if 0 < skip then some (skip - 1, false)
  else if comment then some (0, b != lineFeed)
  else if isLayoutByte b then some (0, false)
  else if b = byteOf '/' && Lexeme.startsWith (· = byteOf '/') rest then some (0, true)
  else none

/-- A byte is passed, or a token begins with it. -/
theorem readFrom_cons (b : UInt8) (rest : Bytes) :
    readFrom skip comment pos [] [] (b :: rest) =
      match pass? skip comment b rest with
      | some (skip, comment) => readFrom skip comment (pos.step b) [] [] rest
      | none =>
        if (Lexeme.head b rest).fault = some .escapeAtEnd then
          .error ⟨pos.offset + 1 + rest.length⟩
        else
          (readFrom (Lexeme.head b rest).more false (pos.step b) [] [] rest).map
            (onto [tokenAt pos b rest] (faultsAt pos b rest)) := by
  unfold pass?
  conv => lhs; unfold readFrom
  split
  · rfl
  split
  · rfl
  split
  · rfl
  split
  · rfl
  dsimp only
  rw [readFrom_onto (Lexeme.head b rest).more, List.append_nil]
  rfl

theorem pass?_le {b : UInt8} {rest : Bytes} {skip' : Nat} {comment' : Bool}
    (hskip : skip ≤ (b :: rest).length) (h : pass? skip comment b rest = some (skip', comment')) :
    skip' ≤ rest.length := by
  simp only [List.length_cons] at hskip
  unfold pass? at h
  split at h
  · cases h; omega
  split at h
  · cases h; exact Nat.zero_le _
  split at h
  · cases h; exact Nat.zero_le _
  split at h
  · cases h; exact Nat.zero_le _
  · cases h

/-! ### Places -/

/-- Every token stands in the text. -/
theorem stands_readFrom (hskip : skip ≤ text.length)
    (h : readFrom skip comment pos [] [] text = .ok r) :
    (∀ t ∈ r.tokens, t.Stands pos.offset text.length) ∧ r.ending.kind = .endOfInput ∧
      r.ending.pos.offset = pos.offset + text.length ∧ r.ending.stop = pos.offset + text.length := by
  induction text generalizing skip comment pos r with
  | nil =>
    cases h
    exact ⟨nofun, rfl, rfl, rfl⟩
  | cons b rest ih =>
    -- what the rest of the text gives, seen from the place before it
    have later {skip : Nat} {comment : Bool} {r : Tokens} (hskip : skip ≤ rest.length)
        (h : readFrom skip comment (pos.step b) [] [] rest = .ok r) :
        (∀ t ∈ r.tokens, t.Stands pos.offset (b :: rest).length) ∧ r.ending.kind = .endOfInput ∧
          r.ending.pos.offset = pos.offset + (b :: rest).length ∧
          r.ending.stop = pos.offset + (b :: rest).length := by
      obtain ⟨ht, hk, ho, hs⟩ := ih hskip h
      simp only [Position.offset_step, List.length_cons] at ht ho hs ⊢
      refine ⟨fun t hm => ?_, hk, by omega, by omega⟩
      obtain ⟨hkind, hafter, hoffset, hstop⟩ := ht t hm
      exact ⟨hkind, by omega, by omega, by omega⟩
    rw [readFrom_cons] at h
    rcases hpass : pass? skip comment b rest with _ | ⟨skip', comment'⟩ <;> simp only [hpass] at h
    · split at h
      · cases h
      have hle := Lexeme.head_le b rest
      rcases hrest : readFrom (Lexeme.head b rest).more false (pos.step b) [] [] rest with e | r' <;>
        rw [hrest] at h <;> cases h
      obtain ⟨ht, hend⟩ := later hle hrest
      refine ⟨fun t hm => ?_, hend⟩
      rcases List.mem_cons.1 hm with rfl | hm
      · refine ⟨Lexeme.kind_head b rest, Nat.le_refl _, ?_, ?_⟩ <;>
          simp only [tokenAt, List.length_cons] <;> omega
      · exact ht t hm
    · exact later (pass?_le hskip hpass) h

/-- The same text at another place has the same tokens there. -/
theorem same_readFrom (h : readFrom skip comment pos [] [] text = .ok r) (pos' : Position) :
    ∃ r', readFrom skip comment pos' [] [] text = .ok r' ∧
      List.Forall₂ (Token.Same pos.offset pos'.offset) r.tokens r'.tokens ∧
      (r.diagnostics = [] → r'.diagnostics = []) ∧ r'.ending.kind = .endOfInput := by
  induction text generalizing skip comment pos pos' r with
  | nil =>
    cases h
    exact ⟨_, rfl, .nil, fun _ => rfl, rfl⟩
  | cons b rest ih =>
    have later {skip : Nat} {comment : Bool} {r : Tokens}
        (h : readFrom skip comment (pos.step b) [] [] rest = .ok r) :
        ∃ r', readFrom skip comment (pos'.step b) [] [] rest = .ok r' ∧
          List.Forall₂ (Token.Same pos.offset pos'.offset) r.tokens r'.tokens ∧
          (r.diagnostics = [] → r'.diagnostics = []) ∧ r'.ending.kind = .endOfInput := by
      obtain ⟨r', hr', hsame, hd, hk⟩ := ih h (pos'.step b)
      refine ⟨r', hr', hsame.imp fun t u htu => ?_, hd, hk⟩
      have ho := htu.offset
      have hs := htu.stop
      simp only [Position.offset_step] at ho hs
      exact ⟨htu.kind, htu.text, by omega, by omega⟩
    rw [readFrom_cons] at h ⊢
    rcases hpass : pass? skip comment b rest with _ | ⟨skip', comment'⟩ <;> simp only [hpass] at h ⊢
    · split at h
      · cases h
      rcases hrest : readFrom (Lexeme.head b rest).more false (pos.step b) [] [] rest with e | r1 <;>
        rw [hrest] at h <;> cases h
      obtain ⟨r', hr', hsame, hd, hk⟩ := later hrest
      refine ⟨onto [tokenAt pos' b rest] (faultsAt pos' b rest) r', ?_, ?_, ?_, hk⟩
      · rw [hr', if_neg ‹_›]
        rfl
      · refine .cons ⟨rfl, rfl, ?_, ?_⟩ hsame <;> simp only [tokenAt] <;> omega
      · intro hnil
        simp only [onto, List.append_eq_nil_iff, List.reverse_eq_nil_iff, faultsAt,
          List.map_eq_nil_iff] at hnil ⊢
        exact ⟨hnil.1, hd hnil.2⟩
    · exact later h

/-! ### Cutting a text -/

theorem map_onto_nil (x : Except Overrun Tokens) : x.map (onto [] []) = x := by
  rcases x with e | r <;> rfl

theorem pass?_following (b : UInt8) (text tail : Bytes) :
    pass? skip comment b (text ++ lineFeed :: tail) = pass? skip comment b text := by
  unfold pass?
  rw [Lexeme.startsWith_ends (by rintro c ⟨⟩; decide)]

/-- A text read without faults is read in the same way when more follows it. -/
theorem readFrom_following {d : UInt8} (rest : Bytes) (hlayout : isLayoutByte d = false)
    (hparen : d ≠ byteOf '(') (hskip : skip ≤ text.length)
    (h : readFrom skip comment pos [] [] text = .ok r) (hr : r.diagnostics = []) :
    ∃ pos' : Position, pos'.offset = pos.offset + text.length + 1 ∧
      readFrom skip comment pos [] [] (text ++ lineFeed :: d :: rest) =
        (readFrom 0 false pos' [] [] (d :: rest)).map (onto r.tokens.reverse []) := by
  induction text generalizing skip comment pos r with
  | nil =>
    cases h
    obtain rfl : skip = 0 := Nat.le_zero.1 hskip
    have hpass : pass? 0 comment lineFeed (d :: rest) = some (0, false) := by
      cases comment <;> simp [pass?, show isLayoutByte lineFeed = true by decide]
    refine ⟨pos.step lineFeed, by simp, ?_⟩
    rw [List.nil_append, readFrom_cons, hpass]
    exact (map_onto_nil _).symm
  | cons b text ih =>
    rw [readFrom_cons] at h
    rw [List.cons_append, readFrom_cons, pass?_following]
    rcases hpass : pass? skip comment b text with _ | ⟨skip', comment'⟩ <;> simp only [hpass] at h ⊢
    · split at h
      · cases h
      rcases hrest : readFrom (Lexeme.head b text).more false (pos.step b) [] [] text with e | r' <;>
        rw [hrest] at h <;> cases h
      -- a fault of the lexeme would be among the diagnostics
      have hclean : (Lexeme.head b text).fault = none ∧ r'.diagnostics = [] := by
        simpa [onto, faultsAt] using hr
      have hhead := Lexeme.head_following (t := rest) hlayout hparen hclean.1
      have hle := Lexeme.head_le b text
      obtain ⟨pos', hpos', hread⟩ := ih hle hrest hclean.2
      refine ⟨pos', by simp at hpos' ⊢; omega, ?_⟩
      have htoken : tokenAt pos b (text ++ lineFeed :: d :: rest) = tokenAt pos b text := by
        simp only [tokenAt, hhead, List.take_append_of_le_length hle]
      have hfaults : faultsAt pos b (text ++ lineFeed :: d :: rest) = [] := by
        simp [faultsAt, hhead, hclean.1]
      rw [htoken, hfaults, hhead, hclean.1, if_neg (by nofun), hread]
      rcases readFrom 0 false pos' [] [] (d :: rest) with e | r'' <;> simp [Except.map, onto]
    · obtain ⟨pos', hpos', hread⟩ := ih (pass?_le hskip hpass) h hr
      exact ⟨pos', by simp at hpos' ⊢; omega, hread⟩

/-- A byte other than layout, a parenthesis or a slash that is always a token of its own. -/
structure Divides (d : UInt8) (kind : TokenKind) : Prop where
  layout : isLayoutByte d = false
  paren : d ≠ byteOf '('
  slash : d ≠ byteOf '/'
  punctuation : Lexeme.punctuation? d = some kind

/-- A dividing token that stands after a number of bytes. -/
structure IsDivider (d : UInt8) (kind : TokenKind) (before : Nat) (t : Token) : Prop where
  kind : t.kind = kind
  text : t.text = [d]
  offset : t.pos.offset = before
  stop : t.stop = before + 1

/-- A text read without faults is read up to a dividing token on the next line, and reading goes on
    after it. -/
theorem tokenize_divided {d : UInt8} {kind : TokenKind} (rest : Bytes) (hd : Divides d kind)
    (h : tokenize text = .ok r) (hr : r.diagnostics = []) :
    ∃ (pos : Position) (divider : Token), pos.offset = text.length + 2 ∧
      IsDivider d kind (text.length + 1) divider ∧
      tokenize (text ++ lineFeed :: d :: rest) =
        (readFrom 0 false pos [] [] rest).map (onto (divider :: r.tokens.reverse) []) := by
  obtain ⟨pos, hpos, hread⟩ :=
    readFrom_following rest hd.layout hd.paren (Nat.zero_le _) h hr
  have hhead : Lexeme.head d rest = Lexeme.sound kind 0 := by
    simp only [Lexeme.head, hd.punctuation]
  have hpass : pass? 0 false d rest = none := by
    simp [pass?, hd.layout, hd.slash]
  rw [show Position.start.offset = 0 from rfl, Nat.zero_add] at hpos
  refine ⟨pos.step d, ⟨kind, [d], pos, pos.offset + 1⟩, by simp [hpos],
    ⟨rfl, rfl, hpos, by rw [hpos]⟩, ?_⟩
  rw [tokenize, hread, readFrom_cons, hpass]
  have hsound : ¬(none : Option LexFault) = some .escapeAtEnd := by decide
  simp only [hhead, Lexeme.sound, faultsAt, tokenAt, List.take_zero, Nat.add_zero, if_neg hsound,
    Option.toList_none, List.map_nil]
  rcases readFrom 0 false (pos.step d) [] [] rest with e | r' <;> simp [Except.map, onto]

end Tokens
end KustoFacts
