import KustoFacts.Proofs.Query.SourceOrder
import KustoFacts.Proofs.Query.Spacing

/-!
    Texts that overrun. The one text that has no tokens is a text in which a string in the body of a
    typed literal is not closed and the last byte is a backslash that begins an escape. A string and
    what stands before it in a body are described here without reference to how they are read. A
    parser that asks for tokens one by one comes upon the overrun, because it asks for all of them
    whatever it reads. -/

namespace KustoFacts

namespace Lexeme

/-- What can stand after an opening quote without closing the string: other bytes, and backslashes
    with the bytes that they escape. -/
inductive Inside (quote : UInt8) : Bytes → Prop where
  | nil : Inside quote []
  | plain {b : UInt8} {rest : Bytes} (hb : b ≠ backslash) (hq : b ≠ quote)
      (hrest : Inside quote rest) : Inside quote (b :: rest)
  | escape (c : UInt8) {rest : Bytes} (hrest : Inside quote rest) :
      Inside quote (backslash :: c :: rest)

/-- What can stand in the body of a typed literal in which a number of parentheses are open, without
    closing the last of them: parentheses, closed strings, and other bytes. -/
inductive Passed : (depth : Nat) → Bytes → Prop where
  | nil (depth : Nat) : Passed depth []
  | opening {depth : Nat} {rest : Bytes} (hrest : Passed (depth + 1) rest) :
      Passed depth (byteOf '(' :: rest)
  | closing {depth : Nat} {rest : Bytes} (hrest : Passed (depth + 1) rest) :
      Passed (depth + 2) (byteOf ')' :: rest)
  | string {depth : Nat} {quote : UInt8} {inside rest : Bytes} (hquote : isQuote quote = true)
      (hinside : Inside quote inside) (hrest : Passed depth rest) :
      Passed depth (quote :: (inside ++ quote :: rest))
  | other {depth : Nat} {b : UInt8} {rest : Bytes} (hopen : b ≠ byteOf '(')
      (hclose : b ≠ byteOf ')') (hquote : isQuote b = false) (hrest : Passed depth rest) :
      Passed depth (b :: rest)

/-- A string that is not closed and ends in a backslash that escapes nothing. -/
def CutString (text : Bytes) : Prop :=
  ∃ quote inside, isQuote quote = true ∧ Inside quote inside ∧
    text = quote :: (inside ++ [backslash])

/-- A body with such a string, after what stands before the string. -/
def CutBody (depth : Nat) (body : Bytes) : Prop :=
  ∃ passed string, Passed depth passed ∧ CutString string ∧ body = passed ++ string

/-- The same body from inside a string on: this string is the one that is cut, or it is closed. -/
def CutInside (quote : UInt8) (depth : Nat) (body : Bytes) : Prop :=
  ∃ inside, Inside quote inside ∧
    (body = inside ++ [backslash] ∨ ∃ rest, body = inside ++ quote :: rest ∧ CutBody depth rest)

variable {b quote : UInt8} {depth read : Nat} {name inside passed body rest text : Bytes}

/-! ### Bodies -/

theorem CutInside.plain (hb : b ≠ backslash) (hq : b ≠ quote) (h : CutInside quote depth body) :
    CutInside quote depth (b :: body) := by
  obtain ⟨inside, hinside, hbody | ⟨rest, hbody, hrest⟩⟩ := h
  · exact ⟨b :: inside, .plain hb hq hinside, .inl (by rw [hbody]; rfl)⟩
  · exact ⟨b :: inside, .plain hb hq hinside, .inr ⟨rest, by rw [hbody]; rfl, hrest⟩⟩

theorem CutInside.escape (c : UInt8) (h : CutInside quote depth body) :
    CutInside quote depth (backslash :: c :: body) := by
  obtain ⟨inside, hinside, hbody | ⟨rest, hbody, hrest⟩⟩ := h
  · exact ⟨_, .escape c hinside, .inl (by rw [hbody]; rfl)⟩
  · exact ⟨_, .escape c hinside, .inr ⟨rest, by rw [hbody]; rfl, hrest⟩⟩

/-- A string in a body is passed, or it is the one that is cut. -/
theorem CutInside.quoted (hquote : isQuote quote = true) (h : CutInside quote depth body) :
    CutBody depth (quote :: body) := by
  obtain ⟨inside, hinside, rfl | ⟨rest, rfl, passed, string, hpassed, hstring, rfl⟩⟩ := h
  · exact ⟨[], _, .nil depth, ⟨quote, inside, hquote, hinside, rfl⟩, rfl⟩
  · exact ⟨_, string, .string hquote hinside hpassed, hstring, by simp⟩

theorem CutBody.cons {depth' : Nat}
    (hpassed : ∀ rest, Passed depth rest → Passed depth' (b :: rest)) (h : CutBody depth body) :
    CutBody depth' (b :: body) := by
  obtain ⟨passed, string, hrest, hstring, rfl⟩ := h
  exact ⟨b :: passed, string, hpassed _ hrest, hstring, rfl⟩

theorem typedBody_quote (hquote : isQuote quote = true) (depth read : Nat) (rest : Bytes) :
    typedBody .plain depth read (quote :: rest) =
      typedBody (.inside quote) depth (read + 1) rest := by
  have hparen : quote ≠ byteOf '(' ∧ quote ≠ byteOf ')' := by
    constructor <;> rintro rfl <;> cases hquote
  rw [typedBody, if_neg hparen.1, if_neg hparen.2, if_pos hquote]

/-- A scan that overruns has come upon a string that is cut. -/
theorem cut_of_fault {state : BodyState} (hdepth : 0 < depth)
    (h : (typedBody state depth read text).fault = some .escapeAtEnd) :
    match state with
    | .plain => CutBody depth text
    | .inside quote => CutInside quote depth text
    | .escaped quote => text = [] ∨ ∃ c rest, text = c :: rest ∧ CutInside quote depth rest := by
  fun_induction typedBody state depth read text with
  | case1 | case2 => cases h
  | case3 => exact .inl rfl
  | case4 depth read rest ih => exact (ih (Nat.succ_pos _) h).cons fun _ => .opening
  | case5 => cases h
  | case6 depth read rest hparen hone ih =>
    obtain ⟨depth, rfl⟩ := Nat.exists_eq_add_of_le' (show 2 ≤ depth by omega)
    exact (ih (Nat.succ_pos _) h).cons fun _ => .closing
  | case7 depth read b rest hopen hclose hquote ih =>
    rw [typedBody_quote hquote] at h
    exact (ih hdepth h).quoted hquote
  | case8 depth read b rest hopen hclose hquote ih =>
    rw [typedBody, if_neg hopen, if_neg hclose, if_neg hquote] at h
    exact (ih hdepth h).cons fun _ => .other hopen hclose (Bool.eq_false_iff.2 hquote)
  | case9 quote depth read rest ih =>
    obtain rfl | ⟨c, rest, rfl, hrest⟩ := ih hdepth h
    · exact ⟨[], .nil, .inl rfl⟩
    · exact hrest.escape c
  | case10 depth read quote rest hb ih =>
    rw [typedBody, if_neg hb, if_pos rfl] at h
    exact ⟨[], .nil, .inr ⟨rest, rfl, ih hdepth h⟩⟩
  | case11 quote depth read b rest hb hquote ih =>
    rw [typedBody, if_neg hb, if_neg hquote] at h
    exact (ih hdepth h).plain hb hquote
  | case12 quote depth read c rest ih => exact .inr ⟨c, rest, rfl, ih hdepth h⟩

/-- What stands inside a string is read as that. -/
theorem typedBody_inside (h : Inside quote inside) (depth read : Nat) (rest : Bytes) :
    ∃ read', typedBody (.inside quote) depth read (inside ++ rest) =
      typedBody (.inside quote) depth read' rest := by
  induction h generalizing read with
  | nil => exact ⟨read, rfl⟩
  | plain hb hq _ ih =>
    obtain ⟨read', ih⟩ := ih (read + 1)
    exact ⟨read', by rw [List.cons_append, typedBody, if_neg hb, if_neg hq, ih]⟩
  | escape c _ ih =>
    obtain ⟨read', ih⟩ := ih (read + 2)
    exact ⟨read', by
      rw [List.cons_append, List.cons_append, typedBody, if_pos rfl, typedBody, ih]⟩

/-- What is passed in a body leaves a parenthesis open. -/
theorem typedBody_passed (h : Passed depth passed) (hdepth : 0 < depth) (read : Nat)
    (rest : Bytes) :
    ∃ depth' read', 0 < depth' ∧ typedBody .plain depth read (passed ++ rest) =
      typedBody .plain depth' read' rest := by
  induction h generalizing read with
  | nil depth => exact ⟨depth, read, hdepth, rfl⟩
  | opening _ ih =>
    obtain ⟨depth', read', hdepth', ih⟩ := ih (Nat.succ_pos _) (read + 1)
    exact ⟨depth', read', hdepth', by rw [List.cons_append, typedBody, if_pos rfl, ih]⟩
  | @closing depth _ _ ih =>
    obtain ⟨depth', read', hdepth', ih⟩ := ih (Nat.succ_pos _) (read + 1)
    refine ⟨depth', read', hdepth', ?_⟩
    rw [List.cons_append, typedBody, if_neg (by decide), if_pos rfl, if_neg (by omega)]
    exact ih
  | @string depth quote inside rest' hquote hinside _ ih =>
    obtain ⟨read1, hread1⟩ := typedBody_inside hinside depth (read + 1) (quote :: (rest' ++ rest))
    obtain ⟨depth', read', hdepth', ih⟩ := ih hdepth (read1 + 1)
    refine ⟨depth', read', hdepth', ?_⟩
    have hb : quote ≠ backslash := by
      rintro rfl
      cases hquote
    rw [List.cons_append, typedBody_quote hquote, List.append_assoc, List.cons_append, hread1,
      typedBody, if_neg hb, if_pos rfl, ih]
  | other hopen hclose hquote _ ih =>
    obtain ⟨depth', read', hdepth', ih⟩ := ih hdepth (read + 1)
    refine ⟨depth', read', hdepth', ?_⟩
    rw [List.cons_append, typedBody, if_neg hopen, if_neg hclose, if_neg (by simp [hquote]), ih]

/-- A body overruns when it has a string that is cut, and only then. -/
theorem fault_typedBody (hdepth : 0 < depth) :
    (typedBody .plain depth read body).fault = some .escapeAtEnd ↔ CutBody depth body := by
  refine ⟨fun h => cut_of_fault hdepth h, ?_⟩
  rintro ⟨passed, string, hpassed, ⟨quote, inside, hquote, hinside, rfl⟩, rfl⟩
  obtain ⟨depth', read', -, hread⟩ :=
    typedBody_passed hpassed hdepth read (quote :: (inside ++ [backslash]))
  obtain ⟨read1, hread1⟩ := typedBody_inside hinside depth' (read' + 1) [backslash]
  rw [hread, typedBody_quote hquote, hread1]
  rfl

/-! ### Lexemes -/

/-- The text of a typed literal from its name on: the name, layout, and the body after its opening
    parenthesis. -/
def LiteralText (body text : Bytes) : Prop :=
  ∃ name blanks, name ∈ typedLiteralWords ∧ IsLayout blanks ∧
    text = name ++ (blanks ++ byteOf '(' :: body)

/-- A body is opened after layout. -/
theorem opens_iff {after : Bytes} : opens after = true ↔
    ∃ blanks body, IsLayout blanks ∧ after = blanks ++ byteOf '(' :: body := by
  constructor
  · intro h
    induction after with
    | nil => cases h
    | cons c after ih =>
      by_cases hc : isLayoutByte c = true
      · rw [opens_cons hc] at h
        obtain ⟨blanks, body, hblanks, rfl⟩ := ih h
        refine ⟨c :: blanks, body, List.forall_mem_cons.2 ⟨?_, hblanks⟩, rfl⟩
        simp only [isLayoutByte, Bool.or_eq_true, decide_eq_true_eq] at hc
        simp only [List.mem_cons, List.not_mem_nil, or_false]
        tauto
      · rw [opens_cons_of_not (Bool.eq_false_iff.2 hc), decide_eq_true_eq] at h
        exact ⟨[], after, List.forall_mem_nil _, by rw [h]; rfl⟩
  · rintro ⟨blanks, body, hblanks, rfl⟩
    rw [opens_layout hblanks]
    rfl

/-- The body of a typed literal is read with one parenthesis open. -/
theorem ofWord_literal {blanks : Bytes} (hname : name ∈ typedLiteralWords)
    (hblanks : IsLayout blanks) (body : Bytes) :
    ∃ read, ofWord name (blanks ++ byteOf '(' :: body) = typedBody .plain 1 read body := by
  have hcount : (blanks ++ byteOf '(' :: body).takeWhile isLayoutByte = blanks := by
    have hall : blanks.takeWhile isLayoutByte = blanks :=
      List.takeWhile_eq_self_iff.2 fun c hc => (layout_mem c (hblanks c hc)).1
    rw [takeWhile_ends (by rintro c ⟨⟩; rfl), hall]
  rw [ofWord_typed (List.contains_iff_mem.2 hname) (opens_iff.2 ⟨blanks, body, hblanks, rfl⟩),
    count, hcount, List.drop_left]
  exact ⟨_, rfl⟩

theorem string?_some {lexeme : Lexeme} (h : string? read rest = some lexeme) :
    ∃ p, lexeme = ofString p := by
  rcases rest with _ | ⟨c, rest⟩
  · cases h
  simp only [string?] at h
  split at h
  · exact ⟨_, (Option.some.inj h).symm⟩
  split at h
  · rcases rest with _ | ⟨q, rest⟩
    · cases h
    · dsimp only at h
      split at h
      · exact ⟨_, (Option.some.inj h).symm⟩
      · cases h
  · cases h

/-- Only a typed literal overruns. -/
theorem word_of_fault (h : (head b rest).fault = some .escapeAtEnd) :
    ∃ name after, b :: rest = name ++ after ∧ typedLiteralWords.contains name = true ∧
      opens after = true ∧ head b rest = ofWord name after := by
  have hstring (p : Nat × Bool) : (ofString p).fault ≠ some .escapeAtEnd := by
    rcases p with ⟨_, _ | _⟩ <;> nofun
  have hof := headOf b rest
  generalize head b rest = lexeme at h hof
  cases hof with
  | mark | pair | alone | unexpected => cases h
  | quoted | fenced | verbatim => exact absurd h (hstring _)
  | marked _ hmarked =>
    obtain ⟨p, rfl⟩ := string?_some hmarked
    exact absurd h (hstring p)
  | negated =>
    simp only [negated] at h
    split at h <;> cases h
  | number =>
    rw [number_eq] at h
    split at h <;> cases h
  | word =>
    refine ⟨b :: rest.takeWhile isWordByte, rest.drop (rest.takeWhile isWordByte).length, ?_, ?_⟩
    · rw [List.cons_append, List.prefix_iff_eq_append.1 (List.takeWhile_prefix isWordByte)]
    rw [word] at h ⊢
    generalize rest.takeWhile isWordByte = name at h ⊢
    rw [ofWord_eq] at h
    split at h
    · cases h
    split at h
    · cases h
    split at h
    next hbody =>
      rw [Bool.and_eq_true] at hbody
      exact ⟨hbody.1, hbody.2, rfl⟩
    · cases h

/-- A lexeme overruns when it is a typed literal with a string that is cut, and only then. -/
theorem fault_head : (head b rest).fault = some .escapeAtEnd ↔
    ∃ body, LiteralText body (b :: rest) ∧ CutBody 1 body := by
  constructor
  · intro h
    obtain ⟨name, after, hsplit, htyped, hopens, hword⟩ := word_of_fault h
    obtain ⟨blanks, body, hblanks, rfl⟩ := opens_iff.1 hopens
    obtain ⟨read, hread⟩ := ofWord_literal (List.contains_iff_mem.1 htyped) hblanks body
    rw [hword, hread, fault_typedBody Nat.one_pos] at h
    exact ⟨body, ⟨name, blanks, List.contains_iff_mem.1 htyped, hblanks, hsplit⟩, h⟩
  · rintro ⟨body, ⟨name, blanks, hname, hblanks, hsplit⟩, hbody⟩
    have hwords : ∀ name ∈ typedLiteralWords, name ≠ [] ∧ ∀ c ∈ name, isWordByte c = true := by
      decide +kernel
    obtain ⟨hne, hall⟩ := hwords name hname
    rcases name with _ | ⟨c, tail⟩
    · exact absurd rfl hne
    rw [List.cons_append] at hsplit
    obtain ⟨rfl, rfl⟩ := List.cons.inj hsplit
    -- the name ends where the layout or the parenthesis begins
    have htake : (tail ++ (blanks ++ byteOf '(' :: body)).takeWhile isWordByte = tail := by
      rw [takeWhile_ends, List.takeWhile_eq_self_iff.2 (List.forall_mem_cons.1 hall).2]
      rcases blanks with _ | ⟨d, blanks⟩
      · rintro d ⟨⟩
        decide
      · rintro d ⟨⟩
        exact (layout_mem d (hblanks d List.mem_cons_self)).2.2.1
    obtain ⟨read, hread⟩ := ofWord_literal hname hblanks body
    rw [head_typed (List.contains_iff_mem.2 hname), word, htake, List.drop_left, hread,
      fault_typedBody Nat.one_pos]
    exact hbody

end Lexeme

namespace Lexer

variable {l after : Lexer} {t : Token} {o : Overrun} {text before : Bytes}

/-! ### Calls -/

/-- A lexer that stands before a typed literal whose body is as given. -/
def AtLiteral (l : Lexer) (body : Bytes) : Prop :=
  Lexeme.LiteralText body (l.rest.drop (gap false l.rest))

/-- A call overruns before a typed literal with a string that is cut, and only there. -/
theorem next_overruns (hat : At text before l) : l.next = .error o ↔
    o = ⟨text.length⟩ ∧ ∃ body, l.AtLiteral body ∧ Lexeme.CutBody 1 body := by
  have hsplit := List.take_append_drop (gap false l.rest) l.rest
  rw [next]
  simp only [AtLiteral]
  rcases hrest : l.rest.drop (gap false l.rest) with _ | ⟨b, rest⟩
  · constructor
    · intro h
      cases h
    · rintro ⟨-, body, ⟨name, blanks, -, -, hnil⟩, -⟩
      simp at hnil
  · rw [hrest] at hsplit
    have hlength : (l.pos.advance (l.rest.take (gap false l.rest))).offset + 1 + rest.length =
        text.length := by
      rw [hat.pos, ← Position.advance_append, Position.advance_start, hat.rest]
      conv => rhs; rw [← hsplit]
      simp only [List.length_append, List.length_cons]
      omega
    dsimp only
    rw [hlength, ← Lexeme.fault_head]
    split
    next hfault => simp [hfault, eq_comm]
    next hfault => simp [hfault]

/-- Reading one token more is a call, and then reading on. -/
theorem read_succ_eq_ok {n : Nat} {ts : List Token} : l.read (n + 1) = .ok (ts, after) ↔
    ∃ t mid ts', l.next = .ok (t, mid) ∧ mid.read n = .ok (ts', after) ∧ ts = t :: ts' := by
  rw [read]
  rcases l.next with e | ⟨t, mid⟩
  · simp [bind, Except.bind]
  · rcases hrest : mid.read n with e | ⟨ts', last⟩ <;>
      simp [bind, Except.bind, pure, Except.pure, hrest, and_comm, eq_comm]

/-- A lexer at the end of its text does not overrun. -/
theorem read_after_end (hnext : l.next = .ok (t, after)) (hkind : t.kind = .endOfInput) (n : Nat) :
    ∃ ts, after.read n = .ok (ts, after) ∧ after.next ≠ .error o := by
  obtain ⟨skipped, hreads⟩ := reads_next hnext
  obtain ⟨-, hrest, -⟩ := hreads.ending hkind
  obtain ⟨pos, rest, diagnostics⟩ := after
  obtain rfl : rest = [] := hrest
  exact ⟨_, read_at_end n pos diagnostics, nofun⟩

/-- Reading a text byte by byte overruns when a call does. -/
theorem tokens_overruns (l : Lexer) : l.tokens = .error o ↔
    ∃ n ts after, l.read n = .ok (ts, after) ∧ after.next = .error o := by
  constructor
  · intro h
    induction hlength : l.rest.length using Nat.strongRecOn generalizing l with
    | ind k ih =>
      rw [tokens_eq] at h
      rcases hnext : l.next with e | ⟨t, after⟩ <;> simp only [hnext] at h
      · exact ⟨0, [], l, rfl, by rw [hnext, Except.error.inj h]⟩
      · split at h
        next => cases h
        next hkind =>
          obtain ⟨skipped, hreads⟩ := reads_next hnext
          have hlt : after.rest.length < k := by
            have hpos := List.length_pos_iff.2 (hreads.token hkind)
            rw [← hlength, hreads.rest]
            simp only [List.length_append]
            omega
          have htokens : after.tokens = .error o := by
            rcases htokens : after.tokens with e | r <;> rw [htokens] at h <;> cases h
            rfl
          obtain ⟨n, ts, last, hread, hlast⟩ := ih _ hlt after htokens rfl
          exact ⟨n + 1, t :: ts, last, read_succ_eq_ok.2 ⟨t, after, ts, hnext, hread, rfl⟩, hlast⟩
  · rintro ⟨n, ts, last, hread, hlast⟩
    induction n generalizing l ts with
    | zero =>
      cases hread
      rw [tokens_eq, hlast]
    | succ n ih =>
      obtain ⟨t, after, ts', hnext, hrest, rfl⟩ := read_succ_eq_ok.1 hread
      rw [tokens_eq, hnext]
      by_cases hkind : t.kind = .endOfInput
      · obtain ⟨ts, hend, hne⟩ := read_after_end (o := o) hnext hkind n
        rw [hend] at hrest
        cases hrest
        exact absurd hlast hne
      · simp only [if_neg hkind, ih after ts' hrest, Except.map]

/-- As many tokens are read as are asked for. -/
theorem length_read {n : Nat} {ts : List Token} (h : l.read n = .ok (ts, after)) :
    ts.length = n := by
  induction n generalizing l ts with
  | zero =>
    cases h
    rfl
  | succ n ih =>
    obtain ⟨t, mid, ts', hnext, hrest, rfl⟩ := read_succ_eq_ok.1 h
    rw [List.length_cons, ih hrest]

/-- Calls from the beginning of a text lead to a place in it. -/
theorem at_read {n : Nat} {ts : List Token} (hat : At text before l)
    (h : l.read n = .ok (ts, after)) : ∃ before', At text before' after := by
  induction n generalizing before l ts with
  | zero =>
    cases h
    exact ⟨before, hat⟩
  | succ n ih =>
    obtain ⟨t, mid, ts', hnext, hrest, rfl⟩ := read_succ_eq_ok.1 h
    obtain ⟨skipped, hreads⟩ := reads_next hnext
    exact ih (hreads.at hat).1 hrest

/-- The body of a literal that a lexer stands before runs to the end of the text. -/
theorem AtLiteral.suffix {body : Bytes} (h : l.AtLiteral body) (hat : At text before l) :
    body <:+ text := by
  obtain ⟨name, blanks, -, -, hdrop⟩ := h
  have hrest := List.take_append_drop (gap false l.rest) l.rest
  rw [hdrop] at hrest
  exact ⟨before ++ (l.rest.take (gap false l.rest) ++ (name ++ (blanks ++ [byteOf '(']))), by
    rw [hat.rest]
    conv => rhs; rw [← hrest]
    simp⟩

end Lexer

/-- A text on which some call of the lexer comes upon a typed literal in which, at an offset, a
    string begins that is not closed and ends with the text in a backslash that begins an escape. -/
def CutOff (text : Bytes) : Prop :=
  ∃ n ts l body passed offset, (Lexer.ofText text).read n = .ok (ts, l) ∧ l.AtLiteral body ∧
    body = passed ++ text.drop offset ∧ Lexeme.Passed 1 passed ∧
    Lexeme.CutString (text.drop offset)

/-- A parser that asks for tokens one by one comes upon an overrun: a call overruns after some
    tokens, and more than these are asked for in every text that begins with them. -/
def Parser.ComesUpon (text : Bytes) (o : Overrun) : Prop :=
  ∃ n ts l, (Lexer.ofText text).read n = .ok (ts, l) ∧ l.next = .error o ∧
    ∀ other read, tokenize other = .ok read → ts <+: read.tokens → n < Parser.asked other read

/-- The parser comes upon every overrun. -/
theorem Parser.comesUpon_iff {text : Bytes} {o : Overrun} :
    Parser.ComesUpon text o ↔ tokenize text = .error o := by
  rw [show tokenize text = .error o ↔ _ from Lexer.tokens_overruns (Lexer.ofText text)]
  constructor
  · rintro ⟨n, ts, l, hread, hnext, -⟩
    exact ⟨n, ts, l, hread, hnext⟩
  · rintro ⟨n, ts, l, hread, hnext⟩
    refine ⟨n, ts, l, hread, hnext, fun other read hother hprefix => ?_⟩
    have hlength := hprefix.length_le
    rw [Lexer.length_read hread] at hlength
    rw [Parser.asked_eq hother, Tokens.all, List.length_append]
    omega

/-- A text has no tokens exactly when it is cut off so; it is reported as a slice that runs one byte
    over the end. In particular it ends in a backslash. Parsing fails exactly when there are no
    tokens: a parser that asks for tokens one by one comes upon the overrun if there is one, and is
    given all tokens that it asks for if there is none. -/
theorem tokenize_overruns (catalog : TableNames) (text : Bytes) (o : Overrun) :
    (tokenize text = .error o ↔ o = ⟨text.length⟩ ∧ CutOff text) ∧
    (tokenize text = .error o → text.getLast? = some backslash ∧
      o.message = bytes "runtime error: slice bounds out of range [:" ++
        decimal (text.length + 1) ++ bytes "] with length " ++ decimal text.length) ∧
    (parse catalog text = .error o ↔ tokenize (Parsed.withoutMark text) = .error o) ∧
    (parse catalog text = .error o ↔ Parser.ComesUpon (Parsed.withoutMark text) o) ∧
    ∀ p, parse catalog text = .ok p → ∃ read, tokenize (Parsed.withoutMark text) = .ok read ∧
      ∃ ts after, (Lexer.ofText (Parsed.withoutMark text)).read
        (Parser.asked (Parsed.withoutMark text) read) = .ok (ts, after) := by
  have hat : Lexer.At text [] (Lexer.ofText text) := ⟨rfl, rfl⟩
  have hiff : tokenize text = .error o ↔ o = ⟨text.length⟩ ∧ CutOff text := by
    refine (Lexer.tokens_overruns (Lexer.ofText text)).trans ?_
    constructor
    · rintro ⟨n, ts, l, hread, hnext⟩
      obtain ⟨before, hat⟩ := Lexer.at_read hat hread
      obtain ⟨ho, body, hliteral, passed, string, hpassed, hstring, rfl⟩ :=
        (Lexer.next_overruns hat).1 hnext
      have hsuffix : string <:+ text := (List.suffix_append _ _).trans (hliteral.suffix hat)
      rw [List.suffix_iff_eq_drop] at hsuffix
      rw [hsuffix] at hliteral hstring
      exact ⟨ho, n, ts, l, _, passed, _, hread, hliteral, rfl, hpassed, hstring⟩
    · rintro ⟨ho, n, ts, l, body, passed, offset, hread, hliteral, hbody, hpassed, hstring⟩
      obtain ⟨before, hat⟩ := Lexer.at_read hat hread
      exact ⟨n, ts, l, hread, (Lexer.next_overruns hat).2
        ⟨ho, body, hliteral, passed, _, hpassed, hstring, hbody⟩⟩
  refine ⟨hiff, fun h => ?_, parse_eq_error_iff,
    parse_eq_error_iff.trans Parser.comesUpon_iff.symm, fun p hp => ?_⟩
  · obtain ⟨rfl, n, ts, l, body, passed, offset, -, -, -, -, quote, inside, -, -, hdrop⟩ :=
      hiff.1 h
    refine ⟨?_, rfl⟩
    rw [← List.take_append_drop offset text, hdrop, ← List.cons_append, ← List.append_assoc,
      List.getLast?_concat]
  · obtain ⟨read, hread, -⟩ := parse_ok hp
    obtain ⟨ts, after, hasked, -⟩ := Lexer.read_asked hread
    exact ⟨read, hread, ts, after, hasked⟩

/-- In the body of `int` a string that begins with an escaped quote and ends in a backslash, after
    two tokens with which another text begins as well. -/
theorem tokenize_overruns_int : tokenize (bytes "T|int('\\'\\") = .error ⟨10⟩ ∧
    Parser.ComesUpon (bytes "T|int('\\'\\") ⟨10⟩ ∧
    ∃ ts l read, (Lexer.ofText (bytes "T|int('\\'\\")).read 2 = .ok (ts, l) ∧
      tokenize (bytes "T|int(1)") = .ok read ∧ ts <+: read.tokens := by
  have hread : ∃ ts l, (Lexer.ofText (bytes "T|int('\\'\\")).read 2 = .ok (ts, l) ∧
      ts = [⟨.word, bytes "T", ⟨0, 1, 1⟩, 1⟩, ⟨.pipe, bytes "|", ⟨1, 1, 2⟩, 2⟩] ∧
      l.rest = bytes "int('\\'\\" := ⟨_, _, rfl, by decide, by decide⟩
  obtain ⟨ts, l, hread, hts, hrest⟩ := hread
  have hcut : CutOff (bytes "T|int('\\'\\") := by
    refine ⟨2, ts, l, bytes "'\\'\\", [], 6, hread, ?_, rfl, .nil 1, ?_⟩
    · rw [Lexer.AtLiteral, hrest]
      exact ⟨bytes "int", [], by decide, nofun, rfl⟩
    · exact ⟨singleQuote, _, rfl, .escape singleQuote .nil, rfl⟩
  have hoverruns := ((tokenize_overruns .empty (bytes "T|int('\\'\\") ⟨10⟩).1).2 ⟨rfl, hcut⟩
  refine ⟨hoverruns, Parser.comesUpon_iff.2 hoverruns, ts, l, _, hread, rfl, ?_⟩
  rw [hts]
  decide

end KustoFacts
