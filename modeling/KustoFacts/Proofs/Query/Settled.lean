import KustoFacts.Proofs.Query.Lexeme

/-!
    Lexemes and what follows them. A lexeme that ends in a text is settled there: whatever reads it
    stops at the bytes that begin the next token or a gap, so that what follows can be exchanged.
    The exception is the layout between the name and the body of a typed literal, which is looked
    through to the byte after it. So a sound lexeme at the end of a text does not change when a line
    feed and a byte that can neither belong to layout nor open a literal are put after the text. -/

namespace KustoFacts.Lexeme

/-! ### What follows a text -/

/-- A byte that ends whatever is read byte by byte: no word, number, operator or opening quote goes
    on with it. -/
structure Stops (c : UInt8) : Prop where
  word : isWordByte c = false
  quote : isQuote c = false
  mark : c ∉ [byteOf '.', byteOf '=', byteOf '~', byteOf '>', byteOf '+', byteOf '-', byteOf '@',
    0x60]

namespace Stops

variable {c : UInt8} (hc : Stops c)
include hc

theorem letter : isLetterByte c = false := by
  have h := hc.word
  simp only [isWordByte, Bool.or_eq_false_iff] at h
  exact h.1.1

theorem digit : isDigit c = false := by
  have h := hc.word
  simp only [isWordByte, Bool.or_eq_false_iff] at h
  exact h.1.2

theorem ne_word {d : UInt8} (hd : isWordByte d = true) : c ≠ d := by
  rintro rfl
  rw [hc.word] at hd
  cases hd

theorem ne_quote {d : UInt8} (hd : isQuote d = true) : c ≠ d := by
  rintro rfl
  rw [hc.quote] at hd
  cases hd

theorem ne_mark {d : UInt8} (hd : d ∈ [byteOf '.', byteOf '=', byteOf '~', byteOf '>', byteOf '+',
    byteOf '-', byteOf '@', 0x60]) : c ≠ d := by
  rintro rfl
  exact hc.mark hd

theorem hex : (hexValue? c).isSome = false := by
  have hletter := hc.letter
  unfold hexValue?
  rw [if_neg (by simp [hc.digit])]
  simp only [isLetterByte, isLower, isUpper, Bool.or_eq_false_iff, Bool.and_eq_false_iff,
    decide_eq_false_iff_not, UInt8.not_le, UInt8.lt_iff_toNat_lt] at hletter
  rw [if_neg, if_neg]
  · rfl
  all_goals
    simp only [Bool.and_eq_true, decide_eq_true_eq, UInt8.le_iff_toNat_le, not_and]
    simp at hletter ⊢
    omega

end Stops

/-- What can follow a text without going on with its last lexeme: nothing, or a text that begins
    with a byte that ends whatever is read byte by byte. -/
def Ends (s : Bytes) : Prop := ∀ c ∈ s.head?, Stops c

theorem Ends.nil : Ends [] := nofun

theorem Ends.cons {c : UInt8} (hc : Stops c) (t : Bytes) : Ends (c :: t) := by
  rintro d ⟨⟩
  exact hc

theorem stops_lineFeed : Stops lineFeed := ⟨by decide, by decide, by decide⟩

theorem stops_space : Stops spaceByte := ⟨by decide, by decide, by decide⟩

theorem startsFence_append {u : Bytes} (b : UInt8) (h : 2 ≤ u.length) (s : Bytes) :
    startsFence (b :: (u ++ s)) = startsFence (b :: u) := by
  rcases u with _ | ⟨c, _ | ⟨d, u⟩⟩
  · cases h
  · exact absurd h (Nat.lt_irrefl 1)
  · simp only [startsFence, Bytes.beginsWith, Bytes.after?, List.cons_append]
    split <;> [skip; rfl]
    split <;> [skip; rfl]
    split <;> rfl

section Following

variable {p : UInt8 → Bool} {s : Bytes}

theorem startsWith_ends (h : ∀ c ∈ s.head?, p c = false) (text : Bytes) :
    startsWith p (text ++ s) = startsWith p text := by
  rcases text with _ | ⟨b, text⟩
  · rcases s with _ | ⟨c, t⟩
    · rfl
    · exact h c rfl
  · rfl

theorem takeWhile_ends (h : ∀ c ∈ s.head?, p c = false) :
    ∀ text : Bytes, (text ++ s).takeWhile p = text.takeWhile p
  | [] => by
    rcases s with _ | ⟨c, t⟩
    · rfl
    · simp [h c rfl]
  | b :: text => by
    rw [List.cons_append, List.takeWhile_cons, List.takeWhile_cons, takeWhile_ends h text]

theorem count_ends (h : ∀ c ∈ s.head?, p c = false) (text : Bytes) :
    count p (text ++ s) = count p text := by
  rw [count, count, takeWhile_ends h]

variable (hs : Ends s)
include hs

theorem dashed?_ends (word after : Bytes) : dashed? word (after ++ s) = dashed? word after := by
  rcases after with _ | ⟨dash, rest⟩
  · rcases s with _ | ⟨c, t⟩
    · rfl
    · have hdash : c ≠ byteOf '-' := (hs c rfl).ne_mark (by decide)
      simp [dashed?, hdash]
  · rw [List.cons_append, dashed?, dashed?, startsWith_ends fun c hc => (hs c hc).letter,
      takeWhile_ends fun c hc => (hs c hc).word]

theorem exponent_ends (text : Bytes) : exponent (text ++ s) = exponent text := by
  rcases text with _ | ⟨e, _ | ⟨d, digits⟩⟩
  · rcases s with _ | ⟨c, t⟩
    · rfl
    · simp [exponent, (hs c rfl).ne_word (show isWordByte (byteOf 'e') = true by decide),
        (hs c rfl).ne_word (show isWordByte (byteOf 'E') = true by decide)]
  · rcases s with _ | ⟨c, t⟩
    · rfl
    · have hplus : c ≠ byteOf '+' := (hs c rfl).ne_mark (by decide)
      have hminus : c ≠ byteOf '-' := (hs c rfl).ne_mark (by decide)
      simp [exponent, (hs c rfl).digit, hplus, hminus]
  · have hdigit := fun c hc => (hs c hc).digit
    simp only [List.cons_append, exponent]
    rw [← List.cons_append, count_ends hdigit, count_ends hdigit, startsWith_ends hdigit]

theorem fraction_ends (text : Bytes) : fraction (text ++ s) = fraction text := by
  have hdot : ∀ c ∈ s.head?, c ≠ byteOf '.' := fun c hc => (hs c hc).ne_mark (by decide)
  rcases text with _ | ⟨b, rest⟩
  · rcases s with _ | ⟨c, t⟩
    · rfl
    · simp [fraction, hdot c rfl]
  · rw [List.cons_append, fraction, fraction, startsWith_ends (by simpa using hdot),
      count_ends fun c hc => (hs c hc).digit]

theorem decimalLength_ends (text : Bytes) : decimalLength (text ++ s) = decimalLength text := by
  have whole := count_le isDigit text
  have part := fraction_le (text.drop (count isDigit text))
  have power := exponent_le
    (text.drop (count isDigit text + fraction (text.drop (count isDigit text))))
  have hdigit := fun c hc => (hs c hc).digit
  have hletter := fun c hc => (hs c hc).letter
  simp only [List.length_drop] at part power
  simp only [decimalLength, count_ends hdigit]
  rw [List.drop_append_of_le_length (by omega), fraction_ends hs,
    List.drop_append_of_le_length (by omega), exponent_ends hs,
    List.drop_append_of_le_length (by omega), count_ends hletter]

theorem number_ends (b : UInt8) (rest : Bytes) : number b (rest ++ s) = number b rest := by
  have hx : ∀ c ∈ s.head?,
      (fun d => decide (d = byteOf 'x') || decide (d = byteOf 'X')) c = false := by
    intro c hc
    simp [(hs c hc).ne_word (show isWordByte (byteOf 'x') = true by decide),
      (hs c hc).ne_word (show isWordByte (byteOf 'X') = true by decide)]
  rw [number, number, startsWith_ends hx, ← List.cons_append, decimalLength_ends hs]
  split
  · rename_i hx
    rcases rest with _ | ⟨d, rest⟩
    · simp [startsWith] at hx
    · rw [List.cons_append, List.drop_succ_cons, List.drop_zero,
        count_ends fun c hc => (hs c hc).hex]
      rfl
  · rfl

theorem negated_ends (rest : Bytes) : negated (rest ++ s) = negated rest := by
  have htilde : ∀ c ∈ s.head?, c ≠ byteOf '~' := fun c hc => (hs c hc).ne_mark (by decide)
  have hle := count_le isWordByte rest
  simp only [count] at hle
  simp only [negated, takeWhile_ends fun c hc => (hs c hc).word]
  rw [List.drop_append_of_le_length hle, startsWith_ends (by simpa using htilde)]

theorem pair?_ends (b : UInt8) (rest : Bytes) : pair? b (rest ++ s) = pair? b rest := by
  have hstart (m : Char) (h : byteOf m ∈ [byteOf '.', byteOf '=', byteOf '~', byteOf '>',
      byteOf '+', byteOf '-', byteOf '@', 0x60]) :
      startsWith (fun x => decide (x = byteOf m)) (rest ++ s) =
        startsWith (fun x => decide (x = byteOf m)) rest :=
    startsWith_ends (fun c hc => by simpa using (hs c hc).ne_mark h) rest
  simp only [pair?, List.findSome?_cons, hstart '.' (by decide), hstart '=' (by decide),
    hstart '~' (by decide), hstart '>' (by decide), List.findSome?_nil]

theorem startsFence_ends (b : UInt8) (rest : Bytes) :
    startsFence (b :: (rest ++ s)) = startsFence (b :: rest) := by
  rcases s with _ | ⟨c, t⟩
  · rw [List.append_nil]
  have hc : (0x60 : UInt8) ≠ c := ((hs c rfl).ne_mark (by decide)).symm
  rcases rest with _ | ⟨d, _ | ⟨e, rest⟩⟩
  · simp [startsFence, Bytes.beginsWith, Bytes.after?, hc]
  · simp [startsFence, Bytes.beginsWith, Bytes.after?, hc]
  · exact startsFence_append b (Nat.le_add_left 2 _) _

end Following

/-! ### Settled lexemes -/

section Settled

variable {quote b : UInt8} {read : Nat} {u s s' : Bytes}

theorem le_quoted (quote : UInt8) (read : Nat) (text : Bytes) :
    read ≤ (quoted quote read text).1 := by
  fun_induction quoted quote read text <;> grind

theorem le_verbatim (quote : UInt8) (read : Nat) (text : Bytes) :
    read ≤ (verbatim quote read text).1 := by
  fun_induction verbatim quote read text <;> grind

theorem le_fenced (read : Nat) (text : Bytes) : read ≤ (fenced read text).1 := by
  fun_induction fenced read text <;> grind

theorem le_typedBody (state : BodyState) (depth read : Nat) (text : Bytes) :
    read ≤ (typedBody state depth read text).more := by
  fun_induction typedBody state depth read text <;> grind [sound]

/-- Whatever follows, it is no end of the line. -/
def GoesOn (s : Bytes) : Prop := ∃ c t, s = c :: t ∧ c ≠ lineFeed

/-- A string of which nothing is read breaks off at the end of the line. -/
theorem quoted_unread (hread : (quoted quote read s).1 ≤ read) :
    (quoted quote read s).2 = false ∧ ¬GoesOn s := by
  rcases s with _ | ⟨c, t⟩
  · exact ⟨rfl, nofun⟩
  · by_cases hc : c = lineFeed
    · subst hc
      refine ⟨by rw [quoted.eq_def]; simp, ?_⟩
      rintro ⟨_, _, ⟨⟩, hne⟩
      exact hne rfl
    · rw [quoted.eq_def] at hread
      grind [le_quoted]

/-- A string that ends in a text is settled there, whatever follows the text: it is closed, or it
    breaks off although the line goes on. -/
theorem quoted_settled (hread : (quoted quote read (u ++ s)).1 ≤ read + u.length)
    (hends : (quoted quote read (u ++ s)).2 = true ∨ GoesOn s) (s' : Bytes) :
    quoted quote read (u ++ s') = quoted quote read (u ++ s) := by
  fun_induction quoted quote read u with
  | case1 read =>
    rw [List.nil_append] at hread hends
    obtain ⟨hopen, hstops⟩ := quoted_unread hread
    rcases hends with h | h
    · rw [hopen] at h
      cases h
    · exact absurd h hstops
  | case2 read rest =>
    rw [List.cons_append, List.cons_append, quoted.eq_def, quoted.eq_def]
    simp
  | case3 read hslash =>
    rcases s with _ | ⟨c, t⟩
    · have hopen : quoted quote read ([backslash] ++ []) = (read + 1, false) := by
        rw [List.append_nil, quoted.eq_def]
        simp only [if_neg hslash, if_true]
      rw [hopen] at hends
      rcases hends with h | ⟨_, _, h, -⟩ <;> cases h
    · have hnext : quoted quote read ([backslash] ++ c :: t) =
          if c = lineFeed then (read + 1, false) else quoted quote (read + 2) t := by
        rw [List.singleton_append, quoted.eq_def]
        simp only [if_neg hslash, if_true]
      rw [hnext] at hread hends
      split at hread
      · rename_i hc
        rw [if_pos hc] at hends
        rcases hends with h | ⟨_, _, ⟨⟩, hne⟩
        · cases h
        · exact absurd hc hne
      · have := le_quoted quote (read + 2) t
        simp only [List.length_singleton] at hread
        omega
  | case4 read rest hslash =>
    simp only [List.cons_append]
    rw [quoted.eq_def, quoted.eq_def]
    simp [hslash]
  | case5 read c rest hc hslash ih =>
    have hnext (t : Bytes) : quoted quote read (backslash :: c :: rest ++ t) =
        quoted quote (read + 2) (rest ++ t) := by
      rw [List.cons_append, List.cons_append, quoted.eq_def]
      simp only [if_neg hslash, if_neg hc, if_true]
    rw [hnext] at hread hends
    rw [hnext, hnext]
    exact ih (by simp only [List.length_cons] at hread; omega) hends
  | case6 read rest hfeed hslash =>
    rw [List.cons_append, List.cons_append, quoted.eq_def, quoted.eq_def]
    simp only [if_neg hfeed, if_neg hslash, if_true]
  | case7 read b rest hfeed hslash hquote ih =>
    have hnext (t : Bytes) : quoted quote read (b :: rest ++ t) =
        quoted quote (read + 1) (rest ++ t) := by
      rw [List.cons_append, quoted.eq_def]
      simp only [if_neg hfeed, if_neg hslash, if_neg hquote]
    rw [hnext] at hread hends
    rw [hnext, hnext]
    exact ih (by simp only [List.length_cons] at hread; omega) hends

/-- A verbatim string ends in the same way; one more byte is looked at to see that its closing quote
    is not doubled. -/
theorem verbatim_settled (hs : ∀ c ∈ s.head?, c ≠ quote) (hs' : ∀ c ∈ s'.head?, c ≠ quote)
    (hread : (verbatim quote read (u ++ s)).1 ≤ read + u.length)
    (hends : (verbatim quote read (u ++ s)).2 = true ∨ GoesOn s) :
    verbatim quote read (u ++ s') = verbatim quote read (u ++ s) := by
  -- a single quote closes the string
  have hclose {s : Bytes} (hs : ∀ c ∈ s.head?, c ≠ quote) (read : Nat) (hq : quote ≠ lineFeed) :
      verbatim quote read (quote :: s) = (read + 1, true) := by
    rw [verbatim.eq_def]
    simp only [if_neg hq, if_true]
    rcases s with _ | ⟨c, t⟩
    · rfl
    · simp only [if_neg (hs c rfl)]
  fun_induction verbatim quote read u with
  | case1 read =>
    rw [List.nil_append] at hread hends
    rcases s with _ | ⟨c, t⟩
    · rcases hends with h | ⟨_, _, h, -⟩ <;> cases h
    · rw [verbatim.eq_def] at hread hends
      simp only [if_neg (hs c rfl)] at hread hends
      split at hread
      · rename_i hc
        rw [if_pos hc] at hends
        rcases hends with h | ⟨_, _, ⟨⟩, hne⟩
        · cases h
        · exact absurd hc hne
      · have := le_verbatim quote (read + 1) t
        simp only [List.length_nil] at hread
        omega
  | case2 read rest =>
    rw [List.cons_append, List.cons_append, verbatim.eq_def, verbatim.eq_def]
    simp
  | case3 read rest hq ih =>
    have hnext (t : Bytes) : verbatim quote read (quote :: quote :: rest ++ t) =
        verbatim quote (read + 2) (rest ++ t) := by
      rw [List.cons_append, List.cons_append, verbatim.eq_def]
      simp only [if_neg hq, if_true]
    rw [hnext] at hread hends
    rw [hnext, hnext]
    exact ih (by simp only [List.length_cons] at hread; omega) hends
  | case4 read c rest hc hq =>
    have hcons (t : Bytes) : ∀ d ∈ (c :: (rest ++ t)).head?, d ≠ quote := by
      rintro d ⟨⟩
      exact hc
    rw [List.cons_append, List.cons_append, List.cons_append, List.cons_append,
      hclose (hcons s') read hq, hclose (hcons s) read hq]
  | case5 read hq =>
    rw [List.singleton_append, List.singleton_append, hclose hs' read hq, hclose hs read hq]
  | case6 read b rest hfeed hb ih =>
    have hnext (t : Bytes) : verbatim quote read (b :: rest ++ t) =
        verbatim quote (read + 1) (rest ++ t) := by
      rw [List.cons_append, verbatim.eq_def]
      simp only [if_neg hfeed, if_neg hb]
    rw [hnext] at hread hends
    rw [hnext, hnext]
    exact ih (by simp only [List.length_cons] at hread; omega) hends

/-- A fenced string ends at its fence. -/
theorem fenced_settled (hs : Ends s) (hs' : Ends s')
    (hread : (fenced read (u ++ s)).1 ≤ read + u.length)
    (hends : (fenced read (u ++ s)).2 = true ∨ GoesOn s) :
    fenced read (u ++ s') = fenced read (u ++ s) := by
  induction u generalizing read with
  | nil =>
    rw [List.nil_append] at hread hends
    rcases s with _ | ⟨c, t⟩
    · rcases hends with h | ⟨_, _, h, -⟩ <;> cases h
    · have hfence : startsFence (c :: t) = false := by
        have hc : (0x60 : UInt8) ≠ c := ((hs c rfl).ne_mark (by decide)).symm
        simp [startsFence, Bytes.beginsWith, Bytes.after?, hc]
      rw [fenced, hfence, if_neg Bool.false_ne_true] at hread
      have := le_fenced (read + 1) t
      simp only [List.length_nil] at hread
      omega
  | cons b rest ih =>
    simp only [List.cons_append, fenced, startsFence_ends hs, startsFence_ends hs'] at hread hends ⊢
    by_cases hfence : startsFence (b :: rest) = true
    · rw [if_pos hfence, if_pos hfence]
    · rw [if_neg hfence] at hread hends
      rw [if_neg hfence, if_neg hfence]
      exact ih (by simp only [List.length_cons] at hread; omega) hends

/-- A typed literal ends at the parenthesis that closes its body. -/
theorem typedBody_settled {state : BodyState} {depth : Nat}
    (hread : (typedBody state depth read (u ++ s)).more ≤ read + u.length)
    (hends : (typedBody state depth read (u ++ s)).fault = none ∨ GoesOn s) (s' : Bytes) :
    typedBody state depth read (u ++ s') = typedBody state depth read (u ++ s) := by
  induction u generalizing state depth read with
  | nil =>
    rw [List.nil_append] at hread hends
    rcases s with _ | ⟨c, t⟩
    · rcases hends with h | ⟨_, _, h, -⟩
      · cases state <;> cases h
      · cases h
    · have hle := fun state depth => le_typedBody state depth (read + 1) t
      cases state <;> grind [typedBody, sound]
  | cons b rest ih =>
    rw [List.length_cons] at hread
    cases state <;> grind [typedBody]

/-! A string as a lexeme. -/

theorem closed_of_ofString {p : Nat × Bool} (h : (ofString p).fault = none) : p.2 = true := by
  rcases p with ⟨more, _ | _⟩
  · cases h
  · rfl

/-- A verbatim string behind its mark is settled, and where a quote is missing none comes in with
    what follows. -/
theorem verbatimAt_settled {α : Type} (found : Nat × Bool → α) (other : α) (hs : Ends s)
    (hs' : Ends s')
    (h : ∀ q v, u = q :: v → isQuote q = true →
      (verbatim q read (v ++ s)).1 ≤ read + v.length ∧
        ((verbatim q read (v ++ s)).2 = true ∨ GoesOn s)) :
    (match u ++ s' with
      | q :: rest => if isQuote q then found (verbatim q read rest) else other
      | [] => other) =
    match u ++ s with
      | q :: rest => if isQuote q then found (verbatim q read rest) else other
      | [] => other := by
  rcases u with _ | ⟨q, v⟩
  · rcases s with _ | ⟨c, t⟩ <;> rcases s' with _ | ⟨c', t'⟩
    · rfl
    · simp [(hs' c' rfl).quote]
    · simp [(hs c rfl).quote]
    · simp [(hs c rfl).quote, (hs' c' rfl).quote]
  · dsimp only [List.cons_append]
    split
    · rename_i hq
      obtain ⟨hread, hends⟩ := h q v rfl hq
      rw [verbatim_settled (fun c hc => (hs c hc).ne_quote hq)
        (fun c hc => (hs' c hc).ne_quote hq) hread hends]
    · rfl

theorem string?_settled (hs : Ends s) (hs' : Ends s')
    (h : ∀ l ∈ string? read (u ++ s), l.more ≤ read + u.length ∧ (l.fault = none ∨ GoesOn s)) :
    string? read (u ++ s') = string? read (u ++ s) := by
  -- nothing that follows opens a string
  have hnone {s : Bytes} (hs : Ends s) (read : Nat) : string? read s = none := by
    rcases s with _ | ⟨c, t⟩
    · rfl
    · simp [string?, (hs c rfl).quote, (hs c rfl).ne_mark (show byteOf '@' ∈ _ by decide)]
  rcases u with _ | ⟨b, u⟩
  · rw [List.nil_append, List.nil_append, hnone hs, hnone hs']
  simp only [List.cons_append, string?, List.length_cons] at h ⊢
  split
  · rename_i hq
    obtain ⟨hread, hends⟩ := h _ (if_pos hq)
    rw [more_ofString] at hread
    rw [quoted_settled (by omega) (hends.imp_left closed_of_ofString)]
  rename_i hq
  rw [if_neg hq] at h
  split
  · rename_i hat
    rw [if_pos hat] at h
    refine verbatimAt_settled (fun p => some (ofString p)) none hs hs' fun q v hu hq => ?_
    subst hu
    dsimp only [List.cons_append] at h
    obtain ⟨hread, hends⟩ := h _ (if_pos hq)
    rw [more_ofString] at hread
    simp only [List.length_cons] at hread
    exact ⟨by omega, hends.imp_left closed_of_ofString⟩
  · rfl

/-! ### Words -/

/-- A word is settled where it ends, unless a body is opened only by what follows the text. -/
theorem ofWord_settled {word : Bytes} (hword : word ≠ []) (hs : Ends s) (hs' : Ends s')
    (hopens : opens (u ++ s) = opens u)
    (hbody : ofWord word (u ++ s) = sound .word (word.length - 1) →
      typedLiteralWords.contains word = true → opens u = false → opens (u ++ s') = false)
    (hread : (ofWord word (u ++ s)).more + 1 ≤ word.length + u.length)
    (hends : (ofWord word (u ++ s)).fault = none ∨ GoesOn s) :
    ofWord word (u ++ s') = ofWord word (u ++ s) := by
  have hpos := List.length_pos_iff.2 hword
  have htilde {s : Bytes} (hs : Ends s) :
      startsWith (fun x => decide (x = byteOf '~')) (u ++ s) =
        startsWith (fun x => decide (x = byteOf '~')) u :=
    startsWith_ends (fun c hc => by simpa using (hs c hc).ne_mark (by decide)) u
  simp only [ofWord_eq, dashed?_ends hs, dashed?_ends hs', htilde hs, htilde hs', hopens]
    at hbody hread hends ⊢
  rcases hdashed : dashed? word u with _ | long
  · simp only [hdashed] at hbody hread hends ⊢
    split
    · rfl
    rename_i hin
    simp only [if_neg hin] at hbody hread hends
    rcases htyped : typedLiteralWords.contains word with _ | _
    · rfl
    rcases hopen : opens u with _ | _
    · simp only [htyped, hopen, Bool.and_false, Bool.false_eq_true, if_false] at hbody ⊢
      rw [hbody trivial trivial trivial]
      rfl
    · obtain ⟨hcount, -⟩ := count_before s hopen
      obtain ⟨hcount', hopen'⟩ := count_before s' hopen
      have hle := count_le isLayoutByte u
      simp only [htyped, hopen, hopen', Bool.and_true, if_true, hcount, hcount'] at hread hends ⊢
      rw [List.drop_append_of_le_length hle] at hread hends
      rw [List.drop_append_of_le_length hle, List.drop_append_of_le_length hle]
      exact typedBody_settled (by rw [List.length_drop]; omega) hends s'
  · rfl

theorem word_settled (hs : Ends s) (hs' : Ends s')
    (hopens : ∀ after, opens (after ++ s) = opens after)
    (hbody : ∀ k, word b (u ++ s) = sound .word k →
      typedLiteralWords.contains (b :: u.take k) = true → opens (u.drop k) = false →
        opens (u.drop k ++ s') = false)
    (hread : (word b (u ++ s)).more ≤ u.length)
    (hends : (word b (u ++ s)).fault = none ∨ GoesOn s) :
    word b (u ++ s') = word b (u ++ s) := by
  have hle := count_le isWordByte u
  have htake : u.take (u.takeWhile isWordByte).length = u.takeWhile isWordByte :=
    (List.prefix_iff_eq_take.1 (List.takeWhile_prefix _)).symm
  have hbody := hbody (u.takeWhile isWordByte).length
  rw [htake] at hbody
  simp only [count] at hle
  simp only [word, takeWhile_ends fun c hc => (hs c hc).word,
    takeWhile_ends fun c hc => (hs' c hc).word] at hbody hread hends ⊢
  rw [List.drop_append_of_le_length hle] at hbody hread hends
  rw [List.drop_append_of_le_length hle, List.drop_append_of_le_length hle]
  refine ofWord_settled (List.cons_ne_nil _ _) hs hs' (hopens _) hbody ?_ hends
  rw [List.length_cons, List.length_drop]
  omega

/-! ### All lexemes -/

/-- A lexeme that ends in a text is settled there: what follows the text can be exchanged for
    anything else that does not go on with it. -/
theorem head_settled (hs : Ends s) (hs' : Ends s')
    (hopens : ∀ after, opens (after ++ s) = opens after)
    (hbody : ∀ k, head b (u ++ s) = sound .word k →
      typedLiteralWords.contains (b :: u.take k) = true → opens (u.drop k) = false →
        opens (u.drop k ++ s') = false)
    (hread : (head b (u ++ s)).more ≤ u.length)
    (hends : (head b (u ++ s)).fault = none ∨ GoesOn s) :
    head b (u ++ s') = head b (u ++ s) := by
  have hdigit {s : Bytes} (hs : Ends s) : startsWith isDigit (u ++ s) = startsWith isDigit u :=
    startsWith_ends (fun c hc => (hs c hc).digit) u
  have hletter {s : Bytes} (hs : Ends s) :
      startsWith isLetterByte (u ++ s) = startsWith isLetterByte u :=
    startsWith_ends (fun c hc => (hs c hc).letter) u
  simp only [head, pair?_ends hs, pair?_ends hs', number_ends hs, number_ends hs',
    negated_ends hs, negated_ends hs', startsFence_ends hs, startsFence_ends hs',
    hdigit hs, hdigit hs', hletter hs, hletter hs'] at hbody hread hends ⊢
  rcases hpunctuation : punctuation? b with _ | kind <;>
    simp only [hpunctuation] at hbody hread hends ⊢
  rcases hpair : pair? b u with _ | kind <;> simp only [hpair] at hbody hread hends ⊢
  split
  · rfl
  rename_i hpoint
  simp only [if_neg hpoint] at hbody hread hends
  rcases halone : alone? b with _ | kind <;> simp only [halone] at hbody hread hends ⊢
  split
  · rfl
  rename_i hnot
  simp only [if_neg hnot] at hbody hread hends
  split
  · rename_i hquote
    rw [if_pos hquote] at hread hends
    rw [more_ofString] at hread
    rw [quoted_settled (by omega) (hends.imp_left closed_of_ofString)]
  rename_i hquote
  simp only [if_neg hquote] at hbody hread hends
  split
  · rename_i htick
    rw [if_pos htick] at hread hends
    split
    · rename_i hopen
      rw [if_pos hopen] at hread hends
      have hlength := startsFence_length hopen
      rw [List.drop_append_of_le_length hlength] at hread hends
      rw [List.drop_append_of_le_length hlength, List.drop_append_of_le_length hlength]
      rw [more_ofString] at hread
      rw [fenced_settled hs hs' (by rw [List.length_drop]; omega)
        (hends.imp_left closed_of_ofString)]
    · rfl
  rename_i htick
  simp only [if_neg htick] at hbody hread hends
  split
  · rename_i hat
    rw [if_pos hat] at hread hends
    refine verbatimAt_settled ofString unexpected hs hs' fun q v hu hq => ?_
    subst hu
    simp only [List.cons_append, if_pos hq] at hread hends
    rw [more_ofString, List.length_cons] at hread
    exact ⟨by omega, hends.imp_left closed_of_ofString⟩
  rename_i hat
  simp only [if_neg hat] at hbody hread hends
  split
  · rename_i hmarked
    simp only [if_pos hmarked] at hbody hread hends
    rcases hstring : string? 0 (u ++ s) with _ | lexeme <;>
      simp only [hstring, Option.getD_none, Option.getD_some] at hbody hread hends
    · rw [string?_settled hs hs' (by simp [hstring]), hstring]
      exact word_settled hs hs' hopens hbody hread hends
    · have hsettled : ∀ l ∈ string? 0 (u ++ s),
          l.more ≤ 0 + u.length ∧ (l.fault = none ∨ GoesOn s) := by
        rw [hstring]
        rintro l ⟨⟩
        exact ⟨by omega, hends⟩
      rw [string?_settled hs hs' hsettled, hstring]
      rfl
  rename_i hmarked
  simp only [if_neg hmarked] at hbody hread hends
  split
  · rename_i hword
    simp only [if_pos hword] at hbody hread hends
    exact word_settled hs hs' hopens hbody hread hends
  · rfl

end Settled

/-- The body of a typed literal is not opened by a line feed and a byte that opens none. -/
theorem opens_following {d : UInt8} (hlayout : isLayoutByte d = false) (hparen : d ≠ byteOf '(')
    (t after : Bytes) : opens (after ++ lineFeed :: d :: t) = opens after := by
  induction after with
  | nil =>
    rw [List.nil_append, opens_cons (by decide), opens_cons_of_not hlayout]
    simp [hparen, opens, startsWith]
  | cons b after ih =>
    by_cases hb : isLayoutByte b = true
    · rw [List.cons_append, opens_cons hb, opens_cons hb, ih]
    · rw [Bool.not_eq_true] at hb
      rw [List.cons_append, opens_cons_of_not hb, opens_cons_of_not hb]

/-- A sound lexeme does not change when a line feed and a byte that can neither belong to layout nor
    open a literal follow the text. -/
theorem head_following {b d : UInt8} {rest t : Bytes} (hlayout : isLayoutByte d = false)
    (hparen : d ≠ byteOf '(') (h : (head b rest).fault = none) :
    head b (rest ++ lineFeed :: d :: t) = head b rest := by
  have hle := head_le b rest
  have hsettled := @head_settled b rest [] (lineFeed :: d :: t)
  simp only [List.append_nil, opens_following hlayout hparen] at hsettled
  exact hsettled .nil (.cons stops_lineFeed _) (fun _ => trivial) (fun _ _ _ h => h) hle (.inl h)

end KustoFacts.Lexeme
