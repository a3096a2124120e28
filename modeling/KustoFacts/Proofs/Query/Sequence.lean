import KustoFacts.Proofs.Query.Parsed

/-!
    Texts one after another. Two texts without faults, with a semicolon on a line of its own between
    them, are read as the statements of the first followed by those of the second. -/

namespace KustoFacts

open KustoFacts.Parser KustoFacts.Frame

variable {short long : Bytes} {read : Tokens}

namespace Frame

/-- A text at the beginning of a longer one. -/
def atStart (short tail : Bytes) (rest : List Token)
    (stops : ∀ t, rest.head? = some t → t.kind = .semicolon ∨ t.kind = .pipe) : Frame where
  a := 0
  b := 0
  short := short
  long := short ++ tail
  rest := rest
  shared := List.prefix_append short tail
  stops := stops

/-- A text at the end of two others. -/
def atEnd (front front' tail : Bytes) : Frame where
  a := front.length
  b := front'.length
  short := front ++ tail
  long := front' ++ tail
  rest := []
  shared := by simp
  stops := nofun

theorem not_piped_atEnd (front front' tail : Bytes) : ¬(atEnd front front' tail).Piped := by
  rintro ⟨rest, h, -⟩
  cases h

/-- The beginning of a text, and a state of a longer text that stands at the same tokens. -/
theorem alike_start {F : Frame} {u : ParserState} (h : tokenize F.short = .ok read)
    (ha : F.a = 0) (hsource : u.source = F.long)
    (htokens : ∃ ts, u.tokens = ts ++ F.rest ∧ List.Forall₂ (Token.Same 0 F.b) read.tokens ts)
    (hending : u.ending.kind = .endOfInput) (hdepth : u.depth = 1)
    (hkept : u.reported = F.reported ∧ u.tooDeep = F.tooDeep) :
    F.Alike (start F.short read) u := by
  obtain ⟨hstands, hkind, -, -⟩ := Tokens.stands_readFrom (Nat.zero_le _) h
  refine ⟨rfl, hsource, by rw [ha]; exact htokens, fun t ht => ?_, hkind, hending, hdepth,
    ⟨rfl, rfl⟩, hkept⟩
  have hstand := hstands t ht
  refine ⟨hstand.kind, by rw [ha]; exact Nat.zero_le _, ?_, ?_⟩
  · simpa [Position.start] using hstand.offset
  · simpa [Position.start] using hstand.stop

theorem same_self (ts : List Token) : List.Forall₂ (Token.Same 0 0) ts ts :=
  List.forall₂_same.2 fun _ _ => ⟨rfl, rfl, rfl, rfl⟩

/-- The statements of a text that is read without a report, read in a longer text with more steps:
    that text has found copies of them and goes on from where they end. -/
theorem reads_follow {F : Frame} {u : ParserState} {nodes : List Node} (found : List Node)
    (steps bound : Nat) (hp : ¬F.Piped) (hread : Reads F.short read nodes) (h : F.Alike (start F.short read) u)
    (hsteps : 2 * read.tokens.length + 1 ≤ steps) (hbound : read.tokens.length ≤ bound) :
    ∃ nodes' t v rounds, F.Alike t v ∧ t.tokens = [] ∧ List.Forall₂ F.Copy nodes nodes' ∧
      bound ≤ rounds + read.tokens.length ∧ v.depth = u.depth ∧
      statements ⟨steps, Grammar.reachIn steps⟩ bound found u =
        statements ⟨steps, Grammar.reachIn steps⟩ rounds (nodes'.reverse ++ found) v := by
  have G := grammars_reachIn F (2 * read.tokens.length + 1) steps
  obtain ⟨news, news', t, v, rounds, hshort, hlong, hlike, hend, hnil, hrounds⟩ :=
    statements_follow G hp (2 * read.tokens.length + 1) bound [] found _ u h hsteps hbound hread.2
  have hnodes : some nodes = some ([] ++ news) := by
    rw [← hread.1, statementsOf]
    exact congrArg Prod.fst hshort
  cases hnodes
  have hdepth : t.depth = (start F.short read).depth := by
    have hforward : (start F.short read).Forward (statementsOf F.short read).2 :=
      forward_rounds _ _ _ _
    rw [← hforward.depth, statementsOf]
    exact congrArg (·.2.depth) hshort.symm
  refine ⟨news', t, v, rounds, hend, hnil, hlike, hrounds, ?_, hlong⟩
  rw [hend.depth, hdepth, h.depth]

end Frame

/-- The tokens of two texts with a semicolon between them: those of the first, the semicolon, and
    those of the second at another place. -/
theorem tokenize_sequence {a b : Bytes} {ra rb : Tokens} (ha : tokenize a = .ok ra)
    (hra : ra.diagnostics = []) (hb : tokenize b = .ok rb) (hrb : rb.diagnostics = []) :
    ∃ r semicolon tail, tokenize (a ++ lineFeed :: byteOf ';' :: lineFeed :: b) = .ok r ∧
      r.tokens = ra.tokens ++ semicolon :: tail ∧
      Tokens.IsDivider (byteOf ';') .semicolon (a.length + 1) semicolon ∧
      List.Forall₂ (Token.Same 0 (a.length + 3)) rb.tokens tail ∧ r.diagnostics = [] ∧
      r.ending.kind = .endOfInput := by
  have hdivides : Tokens.Divides (byteOf ';') .semicolon := by constructor <;> decide
  obtain ⟨pos, semicolon, hpos, hsemicolon, hread⟩ :=
    Tokens.tokenize_divided (lineFeed :: b) hdivides ha hra
  obtain ⟨rb', hrb', hsame, hlexed, hending⟩ := Tokens.same_readFrom hb (pos.step lineFeed)
  rw [Tokens.readFrom_cons, show Tokens.pass? 0 false lineFeed b = some (0, false) from rfl] at hread
  simp only [hrb', Except.map] at hread
  simp only [Position.offset_step, Position.start, hpos] at hsame
  exact ⟨_, semicolon, rb'.tokens, hread, by simp [Tokens.onto], hsemicolon, hsame, hlexed hrb,
    hending⟩

/-- Two texts with a semicolon between them are read one after the other. -/
theorem reads_sequence {a b : Bytes} {ra rb : Tokens} {as bs : List Node}
    (ha : tokenize a = .ok ra) (hra : ra.diagnostics = []) (hA : Reads a ra as)
    (hb : tokenize b = .ok rb) (hrb : rb.diagnostics = []) (hB : Reads b rb bs) :
    ∃ r cs, tokenize (a ++ lineFeed :: byteOf ';' :: lineFeed :: b) = .ok r ∧ r.diagnostics = [] ∧
      Reads (a ++ lineFeed :: byteOf ';' :: lineFeed :: b) r cs ∧ Node.LikeAll (as ++ bs) cs := by
  obtain ⟨r, semicolon, tail, hread, htokens, ⟨hsemicolon, -, -, -⟩, hsame, hlexed, hending⟩ :=
    tokenize_sequence ha hra hb hrb
  have hcount : r.tokens.length = ra.tokens.length + rb.tokens.length + 1 := by
    rw [htokens, List.length_append, List.length_cons, hsame.length_eq]
    omega
  -- the first text
  let F : Frame := .atStart a (lineFeed :: byteOf ';' :: lineFeed :: b) (semicolon :: tail)
    fun t ht => by cases ht; exact .inl hsemicolon
  have hpiped : ¬F.Piped := by
    rintro ⟨t, ht, hk⟩
    cases ht
    rw [hsemicolon] at hk
    cases hk
  have hfirst : F.Alike (start a ra) (start F.long r) :=
    F.alike_start ha rfl rfl ⟨ra.tokens, htokens, same_self _⟩ hending rfl ⟨rfl, rfl⟩
  obtain ⟨as', t, v, rounds, hend, hnil, hlike, hrounds, hdepth, hstatements⟩ :=
    reads_follow [] (2 * r.tokens.length + 1) (2 * r.tokens.length + 1) hpiped hA hfirst
      (by omega) (by omega)
  -- the semicolon
  have hv := hend.rest_of_nil hnil
  have hcurrent : v.current.kind = .semicolon := by
    rw [ParserState.current, hv]
    exact hsemicolon
  obtain ⟨rounds, rfl⟩ : ∃ m, rounds = m + 1 := ⟨rounds - 1, by omega⟩
  rw [statements_again (statementRound_semicolon hcurrent (by decide))] at hstatements
  -- the second text
  let F' : Frame := .atEnd [] (a ++ [lineFeed, byteOf ';', lineFeed]) b
  have hsecond : F'.Alike (start b rb) v.advance := by
    refine F'.alike_start hb rfl ?_ ⟨tail, ?_, ?_⟩ hend.ending' (hdepth.trans rfl) hend.kept
    · exact hend.source'.trans (by simp [F, F', atStart, atEnd])
    · rw [ParserState.advance, hv]
      simp [F, F', atStart, atEnd]
    · simpa [F', atEnd] using hsame
  have hpiped' : ¬F'.Piped := not_piped_atEnd _ _ _
  obtain ⟨bs', t', v', rounds', hend', hnil', hlike', hrounds', -, hstatements'⟩ :=
    reads_follow (as'.reverse ++ []) (2 * r.tokens.length + 1) rounds hpiped' hB hsecond
      (by omega) (by omega)
  obtain ⟨rounds', rfl⟩ : ∃ m, rounds' = m + 1 := ⟨rounds' - 1, by omega⟩
  have hlast : v'.current.kind = .endOfInput := by
    rw [ParserState.current, hend'.rest_of_nil hnil']
    exact hend'.ending'
  rw [hstatements', statements_end hlast] at hstatements
  refine ⟨r, as' ++ bs', hread, hlexed, ⟨?_, ?_⟩,
    (Copy.likeAll hlike).append (Copy.likeAll hlike')⟩
  · rw [statementsOf, Grammar.forTokens]
    refine (congrArg Prod.fst hstatements).trans ?_
    simp
  · rw [statementsOf, Grammar.forTokens]
    exact (congrArg Prod.snd hstatements) ▸ hend'.clean' ⟨rfl, rfl⟩

end KustoFacts
