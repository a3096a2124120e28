import KustoFacts.Proofs.Query.Confined
import KustoFacts.Proofs.Query.ParsedGrown
import KustoFacts.Proofs.Query.Sequence

/-!
    Reading goes on at the next statement. Before a text without faults there may stand another one,
    with a semicolon between the two: whatever is wrong with that one, if it can be given up
    (`Recoverable`) the statements of the text are found as if it stood alone, and everything that is
    reported is reported before it. -/

namespace KustoFacts

open KustoFacts.Parser KustoFacts.Frame

variable {catalog : TableNames} {text a b : Bytes} {r ra rb : Tokens} {s t : ParserState}

/-! ### Nodes as they are read -/

namespace Node

/-- A node as it is read, wherever it stands: its tree without places and without what its names are
    bound to, and the text it was read from. -/
def asRead (source : Bytes) (n : Node) : Node × Bytes := (n.bare.outline, n.text source)

/-- A copy is read as the node that it is a copy of, in any slot. -/
theorem asRead_of_copy {F : Frame} {x y : Node} (h : F.Copy x y) (r : Role) :
    (x.inSlot r).asRead F.short = (y.inSlot r).asRead F.long := by
  have htext := h.text
  simp only [text] at htext
  simp only [asRead, outline_bare, text, span_inSlot, htext, outline_inSlot]
  rw [show x.outline = y.outline from h.like]

theorem map_asRead_of_copies {F : Frame} {xs ys : List Node} (h : List.Forall₂ F.Copy xs ys)
    (r : Role) :
    (xs.map (·.inSlot r)).map (asRead F.short) = (ys.map (·.inSlot r)).map (asRead F.long) := by
  induction h with
  | nil => rfl
  | cons hxy _ ih => rw [List.map_cons, List.map_cons, List.map_cons, List.map_cons, ih,
      asRead_of_copy hxy]

/-- Resolving binds names, and changes nothing else. -/
theorem map_asRead_resolve (scopes : Scopes) (stance : Stance) (source : Bytes) (n : Node) :
    (n.resolve catalog scopes stance).children.map (asRead source) =
      n.children.map (asRead source) := by
  have hbare := congrArg children (@bare_resolve catalog scopes stance n)
  rw [children_bare, children_bare] at hbare
  have hread : ∀ m : Node, m.asRead source = (fun m' : Node => (m'.outline, m'.text source)) m.bare := by
    intro m
    simp only [asRead, text, span_bare]
  simpa only [List.map_map, Function.comp_def, ← hread] using
    congrArg (List.map fun m' : Node => (m'.outline, m'.text source)) hbare

end Node

/-! ### After a statement that is given up -/

namespace Parser

/-- Tokens that stand in a text before a token of it end before that token does. -/
theorem stands_before {own after : List Token} {mark : Token} (hlaid : r.Laid text)
    (htokens : r.tokens = own ++ mark :: after) :
    ∀ t ∈ mark :: own, t.kind ≠ .endOfInput ∧ t.pos.offset ≤ t.stop ∧ t.stop ≤ mark.stop := by
  have hmark : mark ∈ r.tokens := by simp [htokens]
  have hordered := hlaid.ordered
  rw [Tokens.all, htokens, List.append_assoc] at hordered
  intro t ht
  rcases List.mem_cons.1 ht with rfl | hown
  · obtain ⟨hkind, hsolid⟩ := hlaid.tokens t hmark
    exact ⟨hkind, Nat.le_of_lt hsolid, Nat.le_refl _⟩
  · obtain ⟨hkind, hsolid⟩ := hlaid.tokens t (by simp [htokens, hown])
    have hbefore := (List.pairwise_append.1 hordered).2.2 t hown mark (by simp)
    have hmark := (hlaid.tokens mark hmark).2
    exact ⟨hkind, Nat.le_of_lt hsolid, by omega⟩

/-- The statement before a semicolon that stands in a text. -/
def Part.before {own after : List Token} {semicolon : Token} (hlaid : r.Laid text)
    (htokens : r.tokens = own ++ semicolon :: after) (hown : Recoverable own)
    (hsemicolon : semicolon.kind = .semicolon) : Part :=
  ⟨own, semicolon, after, hown, hsemicolon, stands_before hlaid htokens⟩

/-- The statement at the beginning of a text is read or skipped up to the semicolon after it. -/
theorem statements_resume (P : Part) (h : tokenize text = .ok r)
    (htokens : r.tokens = P.own ++ P.semicolon :: P.after) :
    ∃ found t rounds, (start text r).Forward t ∧ P.Holds 0 t ∧ t.current.kind = .semicolon ∧
      2 * r.tokens.length ≤ rounds ∧
      statementsOf text r = statements (.forTokens r.tokens.length) rounds found t := by
  have hstart : P.Holds 0 (start text r) :=
    ⟨⟨P.own, List.suffix_rfl, htokens, P.recoverable.blocks⟩, nofun⟩
  by_cases hsemi : (start text r).current.kind = .semicolon
  · exact ⟨[], _, _, .refl _, hstart, hsemi, Nat.le_succ _, rfl⟩
  have hwithin : ¬Ends .endOfInput (start text r) := by
    simp [Ends, endsStatement, hsemi, hstart.kind_ne_end]
  -- the bound on steps makes no difference, so that there are enough of them for what is skipped
  have halong : (start text r).Along text r := { along_initial h with }
  have C := confines_above (Nat.lt_succ_self P.size) (2 * r.tokens.length + 1)
  have G := twins_above text r (skipping (P.size + 1)) (P.size + 1) 0 (2 * r.tokens.length + 1)
  have hsame : Same (statementRound (.forTokens r.tokens.length) .endOfInput []) _ (start text r) :=
    same_statementRound G halong (Nat.le_refl _)
  obtain ⟨found, t, hrun, ht, hends⟩ := run_statementRound C hstart hwithin []
  have hround := hsame.trans hrun
  have hforward := (statementRound (.forTokens r.tokens.length) .endOfInput []).forward (start text r)
  rw [hround] at hforward
  refine ⟨found, t, 2 * r.tokens.length, hforward, ht, ?_, Nat.le_refl _, statements_again hround⟩
  simpa [Ends, endsStatement, stopAt, ht.kind_ne_end] using hends

/-- After a statement that is given up the statements of a text are read as if it stood alone, and
    nothing is reported about them. -/
theorem statements_recover {nodes : List Node} (ha : tokenize a = .ok ra)
    (hra : ra.diagnostics = []) (hrecoverable : Recoverable ra.tokens)
    (hb : tokenize b = .ok rb) (hrb : rb.diagnostics = []) (hB : Reads b rb nodes) :
    ∃ (r : Tokens) (found nodes' : List Node) (t : ParserState) (F : Frame),
      tokenize (a ++ lineFeed :: byteOf ';' :: lineFeed :: b) = .ok r ∧ r.diagnostics = [] ∧
      statementsOf (a ++ lineFeed :: byteOf ';' :: lineFeed :: b) r = (some (found ++ nodes'), t) ∧
      F.short = b ∧ F.long = a ++ lineFeed :: byteOf ';' :: lineFeed :: b ∧
      List.Forall₂ F.Copy nodes nodes' ∧ ∀ d ∈ t.reported, d.stop ≤ a.length + 2 := by
  obtain ⟨r, semicolon, tail, hread, htokens, hsemicolon, hsame, hlexed, hending⟩ :=
    tokenize_sequence ha hra hb hrb
  have hcount : r.tokens.length = ra.tokens.length + rb.tokens.length + 1 := by
    rw [htokens, List.length_append, List.length_cons, hsame.length_eq]
    omega
  -- the first text
  let P : Part := .before (Tokens.laid_tokenize hread) htokens hrecoverable hsemicolon.kind
  obtain ⟨found, t, rounds, hforward, ht, hsemi, hrounds, hstatements⟩ :=
    statements_resume P hread htokens
  have htail : t.advance.tokens = tail := by
    rw [ParserState.advance, (ht.semicolon hsemi).2]
    rfl
  -- the semicolon
  obtain ⟨rounds, rfl⟩ : ∃ m, rounds = m + 1 := ⟨rounds - 1, by omega⟩
  rw [statements_again (statementRound_semicolon hsemi (by decide))] at hstatements
  -- the second text
  let F : Frame := { Frame.atEnd [] (a ++ [lineFeed, byteOf ';', lineFeed]) b with
    reported := t.reported
    tooDeep := t.tooDeep }
  have hlong : F.long = a ++ lineFeed :: byteOf ';' :: lineFeed :: b := by simp [F, atEnd]
  have halike : F.Alike (start b rb) t.advance := by
    refine F.alike_start hb rfl (hforward.source.trans hlong.symm) ⟨tail, ?_, ?_⟩ ?_
      hforward.depth ⟨rfl, rfl⟩
    · simp [htail, F, atEnd]
    · simpa [F, atEnd] using hsame
    · exact (congrArg Token.kind hforward.ending).trans hending
  have hpiped : ¬F.Piped := not_piped_atEnd [] (a ++ [lineFeed, byteOf ';', lineFeed]) b
  obtain ⟨nodes', u, v, rounds', hend, hnil, hcopies, hrounds', -, hmore⟩ :=
    reads_follow found (2 * r.tokens.length + 1) rounds hpiped hB halike (by omega) (by omega)
  obtain ⟨rounds', rfl⟩ : ∃ m, rounds' = m + 1 := ⟨rounds' - 1, by omega⟩
  have hlast : v.current.kind = .endOfInput := by
    rw [ParserState.current, hend.rest_of_nil hnil]
    exact hend.ending'
  rw [Grammar.forTokens, hmore, statements_end hlast, List.reverse_append,
    List.reverse_reverse] at hstatements
  refine ⟨r, found.reverse, nodes', v, F, hread, hlexed, hstatements, rfl, hlong, hcopies, ?_⟩
  intro d hd
  rw [hend.kept.1] at hd
  have hstop := ht.reported d hd
  rwa [show P.semicolon.stop = a.length + 1 + 1 from hsemicolon.stop] at hstop

end Parser

/-- Without dots and colons only the braces count. -/
theorem Recoverable.of_braces {ts : List Token}
    (hkinds : ∀ t ∈ ts, t.kind ≠ .semicolon ∧ t.kind ≠ .dot ∧ t.kind ≠ .colon)
    (hblocks : Balanced .leftBrace .rightBrace ts) : Recoverable ts where
  unseparated t ht := (hkinds t ht).1
  blocks := hblocks
  members _ _ _ h hdot _ := absurd hdot (hkinds _ (h.subset List.mem_cons_self)).2.1
  types _ _ _ h hcolon _ := absurd hcolon (hkinds _ (h.subset List.mem_cons_self)).2.2

/-- Whatever is wrong with a text that can be given up, the root statements of a text without faults
    are read after it as they are read alone: with a semicolon on a line of its own between the two,
    the root statements end with those of the second text, with the same kinds, names and texts and
    in the same order, and everything that is reported is reported before it. -/
theorem parse_recovers {pb : Parsed} (ha : tokenize (Parsed.withoutMark a) = .ok ra)
    (hra : ra.diagnostics = []) (hrecoverable : Recoverable ra.tokens)
    (hb : parse catalog b = .ok pb) (hclean : pb.diagnostics = [])
    (hmark : b.beginsWith Parsed.byteOrderMark = false) :
    ∃ p, parse catalog (a ++ bytes "\n;\n" ++ b) = .ok p ∧
      pb.root.children.map (Node.asRead pb.text) <:+ p.root.children.map (Node.asRead p.text) ∧
      ∀ d ∈ p.diagnostics, d.stop + b.length < p.text.length := by
  obtain ⟨rb, nodes, hrb, hrbd, hreads, hrootb⟩ := parse_sound hb hclean
  have htextb : pb.text = b := by
    obtain ⟨-, -, rfl⟩ := parse_ok hb
    exact withoutMark_eq hmark
  rw [withoutMark_eq hmark] at hrb hreads hrootb
  obtain ⟨r, found, nodes', t, F, hread, hlexed, hstatements, hshort, hlong, hcopies, hreported⟩ :=
    statements_recover ha hra hrecoverable hrb hrbd hreads
  have htext : Parsed.withoutMark (a ++ bytes "\n;\n" ++ b) =
      Parsed.withoutMark a ++ lineFeed :: byteOf ';' :: lineFeed :: b := by
    rw [← withoutMark_append, List.append_assoc]
    rfl
  obtain ⟨hroot, -, hdiagnostics, -⟩ := runQuery_eq
    (Parsed.withoutMark a ++ lineFeed :: byteOf ';' :: lineFeed :: b) r
  rw [hstatements] at hroot hdiagnostics
  refine ⟨.ofTokens catalog _ r, by rw [parse, htext, hread]; rfl, ?_, ?_⟩
  · have hread := Node.map_asRead_of_copies hcopies .statement
    rw [hshort, hlong] at hread
    rw [hrootb, htextb, Node.map_asRead_resolve]
    simp only [Parsed.ofTokens, parseTokens, hroot, Option.map_some, Option.getD_some]
    rw [Node.map_asRead_resolve, queryOf, Node.children, Node.children, hread, List.map_append,
      List.map_append]
    exact List.suffix_append _ _
  · intro d hd
    have hd : d ∈ t.reported := by
      simpa [Parsed.ofTokens, parseTokens, hlexed, mergeByStart, hdiagnostics] using hd
    have hstop := hreported d hd
    simp only [Parsed.ofTokens, List.length_append, List.length_cons]
    omega

/-- A function whose body has a fault in open parentheses, and a statement after it. -/
theorem parse_recovers_block :
    ∃ p pb, parse .empty (bytes "let f=()\x7b(T\x7d\n;\nS") = .ok p ∧
      parse .empty (bytes "S") = .ok pb ∧ p.diagnostics.length = 1 ∧
      pb.root.children.length = 1 ∧
      pb.root.children.map (Node.asRead pb.text) <:+ p.root.children.map (Node.asRead p.text) ∧
      ∀ d ∈ p.diagnostics, d.stop + 1 < p.text.length := by
  obtain ⟨ra, ha, hra, hkinds, hblocks⟩ : ∃ ra,
      tokenize (Parsed.withoutMark (bytes "let f=()\x7b(T\x7d")) = .ok ra ∧
        ra.diagnostics = [] ∧
        (∀ t ∈ ra.tokens, t.kind ≠ .semicolon ∧ t.kind ≠ .dot ∧ t.kind ≠ .colon) ∧
        Balanced .leftBrace .rightBrace ra.tokens := ⟨_, rfl, by decide, by decide, by decide⟩
  have hview : (cleanRoot? .empty (bytes "S")).map (·.children.length) = some 1 := by
    decide +kernel
  obtain ⟨pb, hb, hclean, hlength⟩ := parse_of_clean hview
  obtain ⟨p, hparse, hsuffix, hbefore⟩ := parse_recovers ha hra (.of_braces hkinds hblocks) hb hclean
    (by decide)
  have hcount : (reading .empty (bytes "let f=()\x7b(T\x7d" ++ bytes "\n;\n" ++ bytes "S")
    ).toOption.map (fun (_, lexed, reported) => lexed.length + reported.length) = some 1 := by
    decide +kernel
  obtain ⟨q, lexed, reported, hq, hmerged, hone⟩ := parse_of_reading hcount
  obtain rfl : p = q := Except.ok.inj (hparse.symm.trans hq)
  have hdiagnostics : p.diagnostics.length = 1 := by
    rw [hmerged, length_mergeByStart]
    exact hone
  exact ⟨p, pb, hparse, hb, hdiagnostics, hlength, hsuffix, hbefore⟩

/-- A brace that nothing opened is counted when the rest of its statement is skipped, and the
    statement after the semicolon is skipped with it. -/
theorem brace_hides_statement :
    ∃ ra p pb, tokenize (Parsed.withoutMark (bytes "T \x7d")) = .ok ra ∧ ra.diagnostics = [] ∧
      (∀ t ∈ ra.tokens, t.kind ≠ .semicolon ∧ t.kind ≠ .leftBrace) ∧
      parse .empty (bytes "S") = .ok pb ∧ pb.diagnostics = [] ∧
      (bytes "S").beginsWith Parsed.byteOrderMark = false ∧
      parse .empty (bytes "T \x7d" ++ bytes "\n;\n" ++ bytes "S") = .ok p ∧
      pb.root.children.map (·.text pb.text) = [bytes "S"] ∧
      p.root.children.map (·.text p.text) = [bytes "T"] := by
  obtain ⟨ra, ha, hra, hkinds⟩ : ∃ ra,
      tokenize (Parsed.withoutMark (bytes "T \x7d")) = .ok ra ∧ ra.diagnostics = [] ∧
        ∀ t ∈ ra.tokens, t.kind ≠ .semicolon ∧ t.kind ≠ .leftBrace :=
    ⟨_, rfl, by decide, by decide⟩
  have hsecond : (cleanRoot? .empty (bytes "S")).map (·.children.map (·.text (bytes "S"))) =
      some [bytes "S"] := by decide +kernel
  obtain ⟨pb, hb, hclean, htexts⟩ := parse_of_clean hsecond
  have hboth : (parse .empty (bytes "T \x7d" ++ bytes "\n;\n" ++ bytes "S")).toOption.map
      (fun p => p.root.children.map (·.text p.text)) = some [bytes "T"] := by decide +kernel
  obtain ⟨p, hp, htext⟩ := parse_of_map hboth
  have hpb : pb.text = bytes "S" := by
    obtain ⟨-, -, rfl⟩ := parse_ok hb
    rfl
  exact ⟨ra, p, pb, ha, hra, hkinds, hb, hclean, by decide, hp, by rw [hpb]; exact htexts, htext⟩

end KustoFacts
