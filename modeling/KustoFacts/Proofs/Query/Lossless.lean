import KustoFacts.Proofs.Query.Lexer
import Mathlib.Data.List.Induction
import Mathlib.Data.List.Nodup
import Mathlib.Data.List.TakeDrop

/-!
    Nothing is lost. The tokens of a text stand in it one after another, each spells the bytes of its
    range and knows its line and column, and between them there is nothing but layout and comments.
    One call of a lexer takes a gap and a token off the text before it; what holds of a whole text
    follows call by call. -/

namespace KustoFacts

/-- Nothing but layout and comments. A comment runs to the end of its line; where the text itself
    ends, it may run up to there. -/
inductive Gap (last : Prop) : Bytes → Prop where
  | nil : Gap last []
  | layout {b : UInt8} {rest : Bytes} (hb : b ∈ [spaceByte, tabByte, carriageReturn, lineFeed])
      (hrest : Gap last rest) : Gap last (b :: rest)
  | comment {body rest : Bytes} (hbody : lineFeed ∉ body) (hrest : Gap last rest) :
      Gap last (byteOf '/' :: byteOf '/' :: (body ++ lineFeed :: rest))
  | lastComment {body : Bytes} (hlast : last) (hbody : lineFeed ∉ body) :
      Gap last (byteOf '/' :: byteOf '/' :: body)

/-- A token has a range in a text, spells the bytes there, and its line and column are those of the
    first of them. -/
structure Token.Spells (text : Bytes) (t : Token) : Prop where
  start : t.pos.offset ≤ t.stop
  stop : t.stop ≤ text.length
  spelling : t.text = text.extract t.pos.offset t.stop
  line : t.pos.line = 1 + (text.take t.pos.offset).count lineFeed
  column : t.pos.column = 1 + ((text.take t.pos.offset).reverse.takeWhile (· ≠ lineFeed)).length

/-- From an offset on, there are only gaps between tokens and before the first of them. -/
def Gaps (text : Bytes) : (start : Nat) → List Token → Prop
  | _, [] => True
  | start, t :: ts =>
    start ≤ t.pos.offset ∧ Gap (t.kind = .endOfInput) (text.extract start t.pos.offset) ∧
      Gaps text t.stop ts

/-- All tokens, with the one that ends the text. -/
def Tokens.all (r : Tokens) : List Token := r.tokens ++ [r.ending]

/-- What tokens are to the text they were read from. -/
structure Lossless (text : Bytes) (r : Tokens) : Prop where
  ending : r.ending.kind = .endOfInput ∧ r.ending.pos.offset = text.length ∧
    r.ending.stop = text.length
  tokens : ∀ t ∈ r.tokens, t.kind ≠ .endOfInput ∧ t.pos.offset < t.stop
  spells : ∀ t ∈ r.all, t.Spells text
  ordered : r.all.Pairwise fun t u => t.stop ≤ u.pos.offset
  gaps : Gaps text 0 r.all
  further : ∀ n, (Lexer.ofText text).read (r.all.length + n) =
    .ok (r.all ++ List.replicate n r.ending, ⟨r.ending.pos, [], r.diagnostics.reverse⟩)

/-! ### Places -/

/-- The place after a text: its length, its line feeds, and the bytes after the last of these. -/
theorem Position.advance_start (text : Bytes) :
    Position.start.advance text =
      ⟨text.length, 1 + text.count lineFeed,
        1 + (text.reverse.takeWhile (· ≠ lineFeed)).length⟩ := by
  induction text using List.reverseRecOn with
  | nil => rfl
  | append_singleton text b ih =>
    rw [Position.advance_append, ih, Position.advance_cons, Position.advance_nil, Position.step]
    split
    next hb => simp [hb, Nat.add_assoc]
    next hb => simp [hb, Nat.add_assoc, Nat.add_comm 1]

/-! ### One call -/

namespace Lexer

/-- The rest of a comment, and a gap after it. -/
def InComment (last : Prop) (text : Bytes) : Prop :=
  (∃ body rest, text = body ++ lineFeed :: rest ∧ lineFeed ∉ body ∧ Gap last rest) ∨
    last ∧ lineFeed ∉ text

theorem InComment.cons {last : Prop} {b : UInt8} {text : Bytes} (h : InComment last text)
    (hb : b ≠ lineFeed) : InComment last (b :: text) := by
  rcases h with ⟨body, rest, rfl, hbody, hrest⟩ | ⟨hlast, htext⟩
  · exact .inl ⟨b :: body, rest, rfl, by simp [hbody, hb.symm], hrest⟩
  · exact .inr ⟨hlast, by simp [htext, hb.symm]⟩

/-- A comment that runs on after its second slash is a gap. -/
theorem InComment.gap {last : Prop} {text : Bytes} (h : InComment last (byteOf '/' :: text)) :
    Gap last (byteOf '/' :: byteOf '/' :: text) := by
  rcases h with ⟨body, rest, htext, hbody, hrest⟩ | ⟨hlast, htext⟩
  · cases body with
    | nil => exact absurd (List.cons.inj htext).1 (by decide)
    | cons c body =>
      obtain ⟨-, rfl⟩ := List.cons.inj htext
      exact .comment (fun hmem => hbody (List.mem_cons_of_mem _ hmem)) hrest
  · exact .lastComment hlast fun hmem => htext (List.mem_cons_of_mem _ hmem)

/-- What is passed is a gap. -/
theorem gap_take_gap (text : Bytes) :
    Gap (text.drop (gap false text) = []) (text.take (gap false text)) ∧
      InComment (text.drop (gap true text) = []) (text.take (gap true text)) := by
  induction text with
  | nil => exact ⟨.nil, .inr ⟨rfl, by simp⟩⟩
  | cons b rest ih =>
    obtain ⟨hgap, hcomment⟩ := ih
    refine ⟨?_, ?_⟩
    · by_cases hlayout : isLayoutByte b
      · have hlength : gap false (b :: rest) = gap false rest + 1 := by simp [gap, hlayout]
        rw [hlength, List.take_succ_cons, List.drop_succ_cons]
        refine .layout ?_ hgap
        simp only [isLayoutByte, Bool.or_eq_true, decide_eq_true_eq] at hlayout
        simp only [List.mem_cons, List.not_mem_nil, or_false]
        tauto
      by_cases hslash : (b = byteOf '/' && Lexeme.startsWith (· = byteOf '/') rest) = true
      · have hlength : gap false (b :: rest) = gap true rest + 1 := by
          simp only [gap, hlayout, hslash, if_true, Bool.false_eq_true, if_false]
        rw [hlength, List.take_succ_cons, List.drop_succ_cons]
        simp only [Bool.and_eq_true, decide_eq_true_eq] at hslash
        obtain ⟨rfl, hsecond⟩ := hslash
        cases rest with
        | nil => cases hsecond
        | cons c rest =>
          obtain rfl : c = byteOf '/' := by simpa [Lexeme.startsWith] using hsecond
          have hlength : gap true (byteOf '/' :: rest) = gap true rest + 1 := rfl
          rw [hlength, List.take_succ_cons] at hcomment ⊢
          exact hcomment.gap
      · have hlength : gap false (b :: rest) = 0 := by
          simp only [gap, hlayout, hslash, Bool.false_eq_true, if_false]
        rw [hlength]
        exact .nil
    · have hlength : gap true (b :: rest) = gap (b != lineFeed) rest + 1 := by simp [gap]
      rw [hlength, List.take_succ_cons, List.drop_succ_cons]
      by_cases hb : b = lineFeed
      · subst hb
        exact .inl ⟨[], _, rfl, by simp, hgap⟩
      · rw [bne_iff_ne.2 hb]
        exact hcomment.cons hb

/-- What a call reads: it passes a gap, then the text of a token. -/
structure Reads (l : Lexer) (skipped : Bytes) (t : Token) (after : Lexer) : Prop where
  rest : l.rest = skipped ++ t.text ++ after.rest
  gap : Gap (t.kind = .endOfInput) skipped
  pos : t.pos = l.pos.advance skipped
  stop : t.stop = t.pos.offset + t.text.length
  place : after.pos = t.pos.advance t.text
  token : t.kind ≠ .endOfInput → t.text ≠ []
  ending : t.kind = .endOfInput →
    t = Token.endAt after.pos ∧ after.rest = [] ∧ after.diagnostics = l.diagnostics

theorem reads_next {l after : Lexer} {t : Token} (h : l.next = .ok (t, after)) :
    ∃ skipped, Reads l skipped t after := by
  have hgap := (gap_take_gap l.rest).1
  refine ⟨l.rest.take (gap false l.rest), ?_⟩
  have hsplit := List.take_append_drop (gap false l.rest) l.rest
  rw [next] at h
  cases hrest : l.rest.drop (gap false l.rest) with
  | nil =>
    rw [hrest] at hsplit hgap h
    cases h
    refine ⟨?_, ?_, rfl, rfl, rfl, by simp [Token.endAt], fun _ => ⟨rfl, rfl, rfl⟩⟩
    · simpa [Token.endAt] using hsplit.symm
    · simpa [Token.endAt] using hgap
  | cons b rest =>
    rw [hrest] at hsplit hgap h
    dsimp only at h
    split at h
    · cases h
    · cases h
      have hkind : (Lexeme.head b rest).kind ≠ .endOfInput := Lexeme.kind_head b rest
      refine ⟨?_, ?_, rfl, ?_, rfl, by simp [Tokens.tokenAt], fun hend => absurd hend hkind⟩
      · simp [Tokens.tokenAt, hsplit]
      · simpa [Tokens.tokenAt, hkind] using hgap
      · have hle := Lexeme.head_le b rest
        simp [Tokens.tokenAt]
        omega

/-- What a call takes when it reads the lexeme at the head of `b :: rest`. -/
structure Takes (l : Lexer) (b : UInt8) (rest : Bytes) (t : Token) (after : Lexer) : Prop where
  gap : l.rest.drop (gap false l.rest) = b :: rest
  fault : (Lexeme.head b rest).fault ≠ some .escapeAtEnd
  token : t = Tokens.tokenAt t.pos b rest
  left : after.rest = rest.drop (Lexeme.head b rest).more
  diagnostics : after.diagnostics = Tokens.faultsAt t.pos b rest ++ l.diagnostics

theorem takes_next {l after : Lexer} {t : Token} (h : l.next = .ok (t, after))
    (hkind : t.kind ≠ .endOfInput) : ∃ b rest, Takes l b rest t after := by
  rw [next] at h
  cases hrest : l.rest.drop (gap false l.rest) with
  | nil =>
    rw [hrest] at h
    cases h
    exact absurd rfl hkind
  | cons b rest =>
    rw [hrest] at h
    dsimp only at h
    split at h
    · cases h
    · cases h
      exact ⟨b, rest, hrest, ‹_›, rfl, rfl, rfl⟩

/-! ### All calls -/

/-- A lexer that has read a part of a text. -/
structure At (text before : Bytes) (l : Lexer) : Prop where
  rest : text = before ++ l.rest
  pos : l.pos = Position.start.advance before

variable {text before skipped : Bytes} {l after : Lexer} {t : Token} {r : Tokens}

/-- The gap that a call passes stands between the last token and the next one. -/
theorem Reads.offset (h : Reads l skipped t after) (hat : At text before l) :
    t.pos = Position.start.advance (before ++ skipped) ∧
      t.pos.offset = before.length + skipped.length ∧
      text.extract before.length t.pos.offset = skipped := by
  have hpos : t.pos = Position.start.advance (before ++ skipped) := by
    rw [h.pos, hat.pos, Position.advance_append]
  have hoffset : t.pos.offset = before.length + skipped.length := by
    rw [hpos, Position.advance_start, List.length_append]
  refine ⟨hpos, hoffset, ?_⟩
  rw [hoffset, hat.rest, h.rest, List.extract_eq_take_drop, Nat.add_sub_cancel_left,
    List.drop_left, List.append_assoc, List.take_left]

/-- The token that a call reads spells its range. -/
theorem Reads.spells (h : Reads l skipped t after) (hat : At text before l) : t.Spells text := by
  obtain ⟨hpos, hoffset, -⟩ := h.offset hat
  have htext : text = (before ++ skipped) ++ (t.text ++ after.rest) := by
    rw [hat.rest, h.rest]
    simp
  have hlength : t.pos.offset = (before ++ skipped).length := by
    rw [hoffset, List.length_append]
  have htake : text.take t.pos.offset = before ++ skipped := by
    rw [hlength, htext, List.take_left]
  refine ⟨by rw [h.stop]; exact Nat.le_add_right .., ?_, ?_, ?_, ?_⟩
  · rw [h.stop, hlength, htext]
    simp only [List.length_append]
    omega
  · rw [h.stop, List.extract_eq_take_drop, Nat.add_sub_cancel_left, hlength, htext,
      List.drop_left, List.take_left]
  · rw [htake, hpos, Position.advance_start]
  · rw [htake, hpos, Position.advance_start]

/-- After a call, a lexer has read a gap and a token more. -/
theorem Reads.at (h : Reads l skipped t after) (hat : At text before l) :
    At text (before ++ skipped ++ t.text) after ∧ t.stop = (before ++ skipped ++ t.text).length := by
  obtain ⟨hpos, hoffset, -⟩ := h.offset hat
  refine ⟨⟨?_, ?_⟩, ?_⟩
  · rw [hat.rest, h.rest]
    simp
  · rw [h.place, hpos, ← Position.advance_append]
  · rw [h.stop, hoffset, List.length_append, List.length_append]

/-- Tokens that a lexer yields stand in the text from where it stands on. -/
theorem Yields.stands (h : Yields l r) (hat : At text before l) :
    (∀ t ∈ r.all, t.Spells text) ∧ Gaps text before.length r.all ∧
      (∀ t ∈ r.tokens, t.kind ≠ .endOfInput ∧ t.pos.offset < t.stop) ∧
      r.ending = Token.endAt (Position.start.advance text) := by
  induction h generalizing before with
  | @ending l after t hnext hkind =>
    obtain ⟨skipped, hreads⟩ := reads_next hnext
    obtain ⟨-, hoffset, hgap⟩ := hreads.offset hat
    obtain ⟨hafter, -⟩ := hreads.at hat
    obtain ⟨hend, hrest, -⟩ := hreads.ending hkind
    refine ⟨?_, ?_, nofun, ?_⟩
    · simpa [Tokens.all] using hreads.spells hat
    · refine ⟨hoffset ▸ Nat.le_add_right .., ?_, trivial⟩
      rw [hgap]
      exact hreads.gap
    · have htext := hafter.rest
      rw [hrest, List.append_nil] at htext
      rw [htext, ← hafter.pos]
      exact hend
  | @token l after t r hnext hkind hrest ih =>
    obtain ⟨skipped, hreads⟩ := reads_next hnext
    obtain ⟨-, hoffset, hgap⟩ := hreads.offset hat
    obtain ⟨hafter, hstop⟩ := hreads.at hat
    obtain ⟨hspells, hgaps, htokens, hending⟩ := ih hafter
    refine ⟨List.forall_mem_cons.2 ⟨hreads.spells hat, hspells⟩,
      ⟨hoffset ▸ Nat.le_add_right .., ?_, hstop ▸ hgaps⟩,
      List.forall_mem_cons.2 ⟨⟨hkind, ?_⟩, htokens⟩, hending⟩
    · rw [hgap]
      exact hreads.gap
    · have hne := List.length_pos_iff.2 (hreads.token hkind)
      have := hreads.stop
      omega

/-- Calls give the tokens that a lexer yields, and then the one that ends the text, again and
    again. -/
theorem Yields.read (h : Yields l r) (n : Nat) :
    l.read (r.all.length + n) =
      .ok (r.all ++ List.replicate n r.ending, ⟨r.ending.pos, [], r.diagnostics.reverse⟩) := by
  induction h with
  | @ending l after t hnext hkind =>
    obtain ⟨skipped, hreads⟩ := reads_next hnext
    obtain ⟨hend, hrest, -⟩ := hreads.ending hkind
    have hpos : t.pos = after.pos := by
      rw [hend]
      rfl
    have hafter : after = ⟨t.pos, [], after.diagnostics⟩ := by
      rw [hpos, ← hrest]
    have hread := read_at_end n t.pos after.diagnostics
    rw [← hafter, hpos, ← hend] at hread
    have hlength : (Tokens.all ⟨[], t, after.diagnostics.reverse⟩).length + n = n + 1 :=
      Nat.add_comm ..
    rw [hlength, Lexer.read, hnext]
    simp only [bind, Except.bind, hread, pure, Except.pure, List.reverse_reverse]
    rw [← hafter]
    rfl
  | @token l after t r hnext hkind hrest ih =>
    have hlength : (Tokens.all ⟨t :: r.tokens, r.ending, r.diagnostics⟩).length + n =
        r.all.length + n + 1 := by
      simp [Tokens.all]
      omega
    rw [hlength, Lexer.read, hnext]
    simp only [bind, Except.bind, ih, pure, Except.pure]
    rfl

end Lexer

/-- Ranges with gaps between them are in order. -/
theorem Gaps.pairwise {text : Bytes} {start : Nat} {ts : List Token} (h : Gaps text start ts)
    (hts : ∀ t ∈ ts, t.pos.offset ≤ t.stop) :
    (∀ t ∈ ts, start ≤ t.pos.offset) ∧ ts.Pairwise fun t u => t.stop ≤ u.pos.offset := by
  induction ts generalizing start with
  | nil => exact ⟨nofun, .nil⟩
  | cons t ts ih =>
    obtain ⟨hstart, -, hgaps⟩ := h
    obtain ⟨ht, hts⟩ := List.forall_mem_cons.1 hts
    obtain ⟨hlater, hpairs⟩ := ih hgaps hts
    refine ⟨List.forall_mem_cons.2 ⟨hstart, ?_⟩, .cons hlater hpairs⟩
    intro u hu
    have := hlater u hu
    omega

/-- Whenever a text has tokens, nothing of it is lost. -/
theorem lossless_tokenize {text : Bytes} {r : Tokens} (h : tokenize text = .ok r) :
    Lossless text r := by
  have hyields : (Lexer.ofText text).Yields r := Lexer.yields_of_tokens h
  have hat : Lexer.At text [] (Lexer.ofText text) := ⟨rfl, rfl⟩
  obtain ⟨hspells, hgaps, htokens, hending⟩ := hyields.stands hat
  have hlength : (Position.start.advance text).offset = text.length := by
    rw [Position.advance_start]
  refine ⟨?_, htokens, hspells, ?_, hgaps, hyields.read⟩
  · rw [hending]
    exact ⟨rfl, hlength, hlength⟩
  · exact (hgaps.pairwise fun t ht => (hspells t ht).start).2

/-- A text with a comment, a fault, and a comment that the end of the text cuts off. -/
theorem lossless_tokenize_comments :
    ∃ r, tokenize (bytes "T // all\n| where ! x\r\n// end") = .ok r ∧ r.diagnostics ≠ [] ∧
      Lossless (bytes "T // all\n| where ! x\r\n// end") r := by
  obtain ⟨r, hr, hfault⟩ : ∃ r, tokenize (bytes "T // all\n| where ! x\r\n// end") = .ok r ∧
      r.diagnostics ≠ [] := ⟨_, rfl, List.cons_ne_nil _ _⟩
  exact ⟨r, hr, hfault, lossless_tokenize hr⟩

end KustoFacts
