import KustoFacts.Proofs.Query.Parsed
import KustoFacts.Proofs.Query.ToEnd

/-!
    Diagnostics in source order. The lexer finds faults at the tokens that it reads and the parser at
    the tokens that it looks at, and neither of them goes back; so both lists are sorted by where
    their members start, and so is the list that they are merged to. It has every fault of the
    lexer, because the parser asks for all tokens whatever it finds. -/

namespace KustoFacts

/-- One list put together from two, each in its own order, by where their members start; where
    starts are equal the members of the first list come first. -/
structure Interleaves {α : Type} (start : α → Nat) (xs ys zs : List α) : Prop where
  sorted : zs.Pairwise fun x y => start x ≤ start y
  members : zs.Perm (xs ++ ys)
  left : xs.Sublist zs
  right : ys.Sublist zs
  ties : ∀ k, zs.filter (start · = k) = xs.filter (start · = k) ++ ys.filter (start · = k)

section Merge

variable {α : Type} {start : α → Nat}

theorem mergeByStart_cons (x y : α) (xs ys : List α) :
    mergeByStart start (x :: xs) (y :: ys) =
      if start x ≤ start y then x :: mergeByStart start xs (y :: ys)
      else y :: mergeByStart start (x :: xs) ys := by
  simp only [mergeByStart, List.cons_merge_cons, decide_eq_true_eq]

theorem sublist_mergeByStart (xs ys : List α) :
    xs.Sublist (mergeByStart start xs ys) ∧ ys.Sublist (mergeByStart start xs ys) := by
  induction xs generalizing ys with
  | nil => simp [mergeByStart]
  | cons x xs ih =>
    induction ys with
    | nil => simp [mergeByStart]
    | cons y ys ihy =>
      rw [mergeByStart_cons]
      split
      · exact ⟨(ih _).1.cons_cons x, (ih _).2.cons x⟩
      · exact ⟨ihy.1.cons y, ihy.2.cons_cons y⟩

theorem filter_start_eq_nil {xs : List α} {k : Nat} (h : ∀ x ∈ xs, k < start x) :
    xs.filter (start · = k) = [] := by
  rw [List.filter_eq_nil_iff]
  intro x hx
  have hlt := h x hx
  simp only [decide_eq_true_eq]
  omega

/-- Members of the second list go before members of the first only where they start before all of
    these. -/
theorem filter_mergeByStart {xs ys : List α} (hxs : xs.Pairwise fun x y => start x ≤ start y)
    (k : Nat) :
    (mergeByStart start xs ys).filter (start · = k) =
      xs.filter (start · = k) ++ ys.filter (start · = k) := by
  induction xs generalizing ys with
  | nil => simp [mergeByStart]
  | cons x xs ih =>
    have hleast : ∀ z ∈ x :: xs, start x ≤ start z :=
      List.forall_mem_cons.2 ⟨Nat.le_refl _, fun _ => List.rel_of_pairwise_cons hxs⟩
    induction ys with
    | nil => simp [mergeByStart]
    | cons y ys ihy =>
      rw [mergeByStart_cons]
      split
      · rw [List.filter_cons, ih hxs.of_cons, List.filter_cons (x := x)]
        split <;> rfl
      next hlt =>
        rw [List.filter_cons, ihy, List.filter_cons (x := y)]
        split
        next hy =>
          obtain rfl : start y = k := of_decide_eq_true hy
          have hlater : ∀ z ∈ x :: xs, start y < start z := fun z hz =>
            Nat.lt_of_lt_of_le (Nat.not_le.1 hlt) (hleast z hz)
          rw [filter_start_eq_nil hlater]
          rfl
        next => rfl

/-- Merging two sorted lists interleaves them. -/
theorem interleaves_mergeByStart {xs ys : List α}
    (hxs : xs.Pairwise fun x y => start x ≤ start y)
    (hys : ys.Pairwise fun x y => start x ≤ start y) :
    Interleaves start xs ys (mergeByStart start xs ys) where
  sorted := by
    have : Std.Total fun x y => start x ≤ start y := ⟨fun x y => Nat.le_total _ _⟩
    have : IsTrans α fun x y => start x ≤ start y := ⟨fun _ _ _ => Nat.le_trans⟩
    exact hxs.merge hys
  members := List.merge_perm_append _
  left := (sublist_mergeByStart xs ys).1
  right := (sublist_mergeByStart xs ys).2
  ties := filter_mergeByStart hxs

end Merge

/-! ### What the lexer finds -/

namespace Lexer

variable {text before : Bytes} {l after : Lexer} {t : Token} {r : Tokens}

/-- A call finds nothing, or something wrong with the token that it reads. -/
theorem diagnostics_next (h : l.next = .ok (t, after)) :
    after.diagnostics = l.diagnostics ∨
      ∃ d : Diagnostic, d.place = t.pos ∧ d.stop = t.stop ∧ after.diagnostics = d :: l.diagnostics := by
  rw [next] at h
  split at h
  · cases h
    exact .inl rfl
  · dsimp only at h
    split at h
    · cases h
    · cases h
      dsimp only [Tokens.faultsAt]
      cases (Lexeme.head _ _).fault with
      | none => exact .inl rfl
      | some fault => exact .inr ⟨_, rfl, rfl, rfl⟩

/-- What a lexer finds from where it stands on, in order, after what it found before. -/
theorem Yields.reported (h : Yields l r) (hat : At text before l) :
    ∃ found, r.diagnostics = l.diagnostics.reverse ++ found ∧
      found.Pairwise (fun d e => d.start ≤ e.start) ∧
      ∀ d ∈ found, before.length ≤ d.start ∧ d.Points text := by
  induction h generalizing before with
  | @ending l after t hnext hkind =>
    obtain ⟨skipped, hreads⟩ := reads_next hnext
    obtain ⟨-, -, hsame⟩ := hreads.ending hkind
    exact ⟨[], by rw [hsame, List.append_nil], .nil, nofun⟩
  | @token l after t r hnext hkind hrest ih =>
    obtain ⟨skipped, hreads⟩ := reads_next hnext
    obtain ⟨hafter, hstop⟩ := hreads.at hat
    obtain ⟨-, hoffset, -⟩ := hreads.offset hat
    have hspells := hreads.spells hat
    obtain ⟨found, hfound, hsorted, hpoints⟩ := ih hafter
    have hlater : ∀ d ∈ found, t.pos.offset ≤ d.start ∧ d.Points text := fun d hd =>
      ⟨Nat.le_trans hspells.start (hstop ▸ (hpoints d hd).1), (hpoints d hd).2⟩
    have hbefore : before.length ≤ t.pos.offset := hoffset ▸ Nat.le_add_right ..
    rcases diagnostics_next hnext with hnone | ⟨d, hplace, hd, hone⟩
    · refine ⟨found, by rw [← hnone]; exact hfound, hsorted, fun e he => ?_⟩
      exact ⟨Nat.le_trans hbefore (hlater e he).1, (hlater e he).2⟩
    · have hstart : d.start = t.pos.offset := by rw [Diagnostic.start, hplace]
      refine ⟨d :: found, ?_, .cons (fun e he => hstart ▸ (hlater e he).1) hsorted, ?_⟩
      · rw [hone, List.reverse_cons, List.append_assoc] at hfound
        exact hfound
      · refine List.forall_mem_cons.2 ⟨⟨hstart ▸ hbefore, hspells.points hplace hd⟩, ?_⟩
        exact fun e he => ⟨Nat.le_trans hbefore (hlater e he).1, (hlater e he).2⟩

end Lexer

/-! ### Whole texts -/

variable {catalog : TableNames} {text : Bytes} {read : Tokens} {p : Parsed}

/-- The faults of tokens stand in the text, in order. -/
theorem sorted_tokenize (h : tokenize text = .ok read) :
    read.diagnostics.Pairwise (fun d e => d.start ≤ e.start) ∧
      ∀ d ∈ read.diagnostics, d.Points text := by
  have hyields : (Lexer.ofText text).Yields read := Lexer.yields_of_tokens h
  have hat : Lexer.At text [] (Lexer.ofText text) := ⟨rfl, rfl⟩
  obtain ⟨found, hfound, hsorted, hpoints⟩ := hyields.reported hat
  rw [show read.diagnostics = found from hfound]
  exact ⟨hsorted, fun d hd => (hpoints d hd).2⟩

/-- The faults that the parser reports stand in the text, in order. -/
theorem sorted_parseTokens (h : tokenize text = .ok read) :
    (parseTokens text read).2.Pairwise (fun d e => d.start ≤ e.start) ∧
      ∀ d ∈ (parseTokens text read).2, d.Points text := by
  have hforward : (Parser.initial text read).Forward (Parser.runQuery text read).2 :=
    Parser.forward _ _
  have halong := ((Parser.along_initial h).moves hforward.moves).1
  refine ⟨List.pairwise_reverse.2 halong.reported, fun d hd => ?_⟩
  exact (halong.points d (List.mem_reverse.1 hd)).1

/-- How many tokens the parser of a text asks for: those that it consumes, and the three that it
    has in view. -/
def Parser.asked (text : Bytes) (read : Tokens) : Nat :=
  read.tokens.length - (runQuery text read).2.tokens.length + 3

/-- The parser asks for all tokens of a text, and twice more for the one that ends it. -/
theorem Parser.asked_eq (h : tokenize text = .ok read) :
    Parser.asked text read = read.all.length + 2 := by
  rw [Parser.asked, Parser.tokens_runQuery h, Tokens.all, List.length_append]
  rfl

/-- The parser asks for the end of the text, so that the lexer has found all faults. -/
theorem Lexer.read_asked (h : tokenize text = .ok read) :
    ∃ tokens after, (Lexer.ofText text).read (Parser.asked text read) = .ok (tokens, after) ∧
      after.rest = [] ∧ after.diagnostics = read.diagnostics.reverse := by
  have hyields : (Lexer.ofText text).Yields read := Lexer.yields_of_tokens h
  exact ⟨_, _, Parser.asked_eq h ▸ hyields.read 2, rfl, rfl⟩

/-- The diagnostics of a text are those of its lexer, which the parser drives to the end of the
    text, and those of its parser, in source order; each of them is about a range of the text and
    knows its line and column. -/
theorem interleaves_diagnostics (h : parse catalog text = .ok p) :
    p.text = Parsed.withoutMark text ∧ ∃ read, tokenize p.text = .ok read ∧
      Interleaves Diagnostic.start read.diagnostics (parseTokens p.text read).2 p.diagnostics ∧
      (∀ d ∈ p.diagnostics, d.Points p.text) ∧
      ∃ tokens after,
        (Lexer.ofText p.text).read (Parser.asked p.text read) = .ok (tokens, after) ∧
        after.rest = [] ∧ after.diagnostics = read.diagnostics.reverse := by
  obtain ⟨read, hread, rfl⟩ := parse_ok h
  obtain ⟨hlexed, hlexedPoints⟩ := sorted_tokenize hread
  obtain ⟨hparsed, hparsedPoints⟩ := sorted_parseTokens hread
  refine ⟨rfl, read, hread, interleaves_mergeByStart hlexed hparsed, fun d hd => ?_,
    Lexer.read_asked hread⟩
  rcases List.mem_merge.1 hd with hd | hd
  · exact hlexedPoints d hd
  · exact hparsedPoints d hd

/-- Behind a byte order mark, a byte that begins no token and a string without an end, and what the
    parser has to say at the same places. -/
theorem interleaves_diagnostics_ties :
    ∃ p, parse .empty (Parsed.byteOrderMark ++ bytes "T|!;\n\"a") = .ok p ∧
      p.diagnostics.map (fun d => (d.start, d.fault)) =
        [(2, .unexpectedByte 33), (2, .expectedOperator), (5, .unterminatedString)] ∧
      ∃ read, tokenize p.text = .ok read ∧
        Interleaves Diagnostic.start read.diagnostics (parseTokens p.text read).2 p.diagnostics ∧
        ∀ d ∈ p.diagnostics, d.Points p.text := by
  have hview : (reading .empty (Parsed.byteOrderMark ++ bytes "T|!;\n\"a")).toOption.map
      (fun (_, lexed, reported) => (lexed, reported)) =
        some ([⟨⟨2, 1, 3⟩, 3, .unexpectedByte 33⟩, ⟨⟨5, 2, 1⟩, 7, .unterminatedString⟩],
          [⟨⟨2, 1, 3⟩, 3, .expectedOperator⟩]) := by decide +kernel
  obtain ⟨p, lexed, reported, hparse, hmerged, hview⟩ := parse_of_reading hview
  obtain ⟨rfl, rfl⟩ := Prod.mk.inj hview
  have hfaults : p.diagnostics.map (fun d => (d.start, d.fault)) =
      [(2, .unexpectedByte 33), (2, .expectedOperator), (5, .unterminatedString)] := by
    rw [hmerged]
    simp [mergeByStart, Diagnostic.start]
  obtain ⟨-, read, hread, hinterleaves, hpoints, -⟩ := interleaves_diagnostics hparse
  exact ⟨p, hparse, hfaults, read, hread, hinterleaves, hpoints⟩

end KustoFacts
