import KustoFacts.Proofs.Facts.Sequence
import KustoFacts.Proofs.Query.Pipeline

/-!
    The facts of texts that go on with a pipe. A text that is one expression, then a pipe with
    operators: the facts of the whole are the union of the facts of the expression and of what the
    operators show, which can be read off these operators on top of an expression that shows
    nothing. -/

namespace KustoFacts

open KustoFacts.Node KustoFacts.Parser KustoFacts.Frame

variable {catalog : TableNames} {normalize : Bool} {text : Bytes}

/-! ### What operators show -/

/-- Like nodes show the same once they are resolved. -/
theorem findings_like {x y : Node} (h : x.Like y) (scopes : Scopes) (stance : Stance) :
    (x.resolve catalog scopes stance).findings normalize =
      (y.resolve catalog scopes stance).findings normalize := by
  rw [← findings_outline, outline_resolve, h, ← outline_resolve, findings_outline]

/-- Like operators on top of two sources show the same after what the sources show. -/
theorem findings_stacked {base base' x y : Node} (h : Stacked base base' x y) (scopes : Scopes) :
    ∃ more : List Finding,
      ((x.inSlot .expression).resolve catalog scopes .tabular).findings normalize =
        ((base.inSlot .expression).resolve catalog scopes .tabular).findings normalize ++ more ∧
      ((y.inSlot .expression).resolve catalog scopes .tabular).findings normalize =
        ((base'.inSlot .expression).resolve catalog scopes .tabular).findings normalize ++ more := by
  have hpipe (source op : Node) (span : Span) (first : Token) :
      (((Node.mk .none .pipeExpression span first
          [source.inSlot .expression, op.inSlot .operator]).inSlot .expression).resolve
            catalog scopes .tabular).findings normalize =
        ((source.inSlot .expression).resolve catalog scopes .tabular).findings normalize ++
          ((op.inSlot .operator).resolve catalog scopes .scalar).findings normalize := by
    rcases source with ⟨role, form, span', first', children⟩
    rcases op with ⟨role', form', span'', first'', children'⟩
    simp only [inSlot, resolve, resolveChildren, findings_mk, List.flatMap_cons, List.flatMap_nil,
      List.append_nil]
    rfl
  induction h with
  | base => exact ⟨[], by simp, by simp⟩
  | pipe below like ih =>
    rename_i x y op op' span span' first first'
    obtain ⟨more, hx, hy⟩ := ih
    have hop : ((op.inSlot .operator).resolve catalog scopes .scalar).findings normalize =
        ((op'.inSlot .operator).resolve catalog scopes .scalar).findings normalize :=
      findings_like (like.inSlot .operator) scopes .scalar
    refine ⟨more ++ ((op.inSlot .operator).resolve catalog scopes .scalar).findings normalize,
      ?_, ?_⟩
    · rw [hpipe, hx, List.append_assoc]
    · rw [hpipe, hy, hop, List.append_assoc]

/-- A single expression shows what it shows where a table is expected. -/
theorem statementFindings_expression {read : Tokens} {x : Node} {span : Span} {first : Token}
    (hread : tokenize text = .ok read)
    (h : Reads text read [.mk .none .expressionStatement span first [x.inSlot .expression]]) :
    statementFindings catalog normalize
        [.mk .none .expressionStatement span first [x.inSlot .expression]] =
      ((x.inSlot .expression).resolve catalog Scopes.top.push .tabular).findings normalize := by
  have hstatement := is_statement_of_reads hread h _ (List.mem_singleton.2 rfl)
  have hparams : declareParams Scopes.top.push [x.inSlot .expression] = Scopes.top.push :=
    declareParams_eq (not_parameter_of_declares hstatement rfl)
  rw [statementFindings, List.map_singleton, inSlot, resolveStatements, hparams]
  simp only [resolveStatements, resolveChildren, List.flatMap_cons, List.flatMap_nil,
    List.append_nil, findings_mk]
  rfl

/-! ### An expression that shows nothing -/

/-- The words of `print 1`. -/
def printTokens : Tokens where
  tokens :=
    [⟨.word, bytes "print", ⟨0, 1, 1⟩, 5⟩, ⟨.number, bytes "1", ⟨6, 1, 7⟩, 7⟩]
  ending := ⟨.endOfInput, [], ⟨7, 1, 8⟩, 7⟩
  diagnostics := []

/-- The statement `print 1`. -/
def printNode : Node :=
  .mk .none .expressionStatement ⟨0, 7⟩ ⟨.word, bytes "print", ⟨0, 1, 1⟩, 5⟩
    [.mk .expression (.operator (bytes "print")) ⟨0, 7⟩ ⟨.word, bytes "print", ⟨0, 1, 1⟩, 5⟩
      [.mk .argument .literal ⟨6, 7⟩ ⟨.number, bytes "1", ⟨6, 1, 7⟩, 7⟩ []]]

theorem isExpression_print : IsExpression (bytes "print 1") printTokens printNode where
  tokens := by decide +kernel
  sound := rfl
  reads := ⟨rfl, rfl, rfl⟩
  form := rfl
  pending := ⟨⟨.number, bytes "1", ⟨6, 1, 7⟩, 7⟩, rfl, by decide⟩

theorem statementFindings_print : statementFindings catalog normalize [printNode] = [] := rfl

/-! ### Pipelines -/

/-- The last token of a text. -/
def lastToken? (text : Bytes) : Option Token :=
  (tokenize (Parsed.withoutMark text)).toOption.bind (·.tokens.getLast?)

/-- A text without faults that is one expression and does not end in a semicolon. -/
theorem isExpression_of_parse {a : Bytes} {p : Parsed} (h : parse catalog a = .ok p)
    (hp : p.diagnostics = []) (hone : p.root.children.map form = [.expressionStatement])
    (hlast : ∀ t ∈ lastToken? a, t.kind ≠ .semicolon) :
    ∃ read node, IsExpression (Parsed.withoutMark a) read node ∧
      p.root = (queryOf (Parsed.withoutMark a) read [node]).resolve catalog .top .scalar := by
  obtain ⟨read, nodes, hread, hsound, hreads, hroot⟩ := parse_sound h hp
  rw [hroot, forms_queryOf] at hone
  obtain ⟨node, rfl, hform⟩ : ∃ node, nodes = [node] ∧ node.form = .expressionStatement := by
    rcases nodes with _ | ⟨node, _ | ⟨node', nodes⟩⟩
    · cases hone
    · exact ⟨node, rfl, by simpa using hone⟩
    · simp at hone
  refine ⟨read, node, ⟨hread, hsound, hreads, hform, ?_⟩, hroot⟩
  rcases ht : read.tokens.getLast? with _ | t
  · -- without tokens there would be no statement
    have hcurrent : (start (Parsed.withoutMark a) read).current.kind = .endOfInput := by
      rw [ParserState.current, show (start (Parsed.withoutMark a) read).tokens = [] from
        List.getLast?_eq_none_iff.1 ht]
      exact (Tokens.stands_readFrom (Nat.zero_le _) hread).2.1
    have hnone := hreads.1
    rw [statementsOf, statements_end hcurrent] at hnone
    cases hnone
  · exact ⟨t, ht, hlast t (by rw [lastToken?, hread]; exact ht)⟩

/-- An expression with operators after a pipe on the next line has the facts of the expression and
    the facts of these operators, which are those they have after `print 1`. -/
theorem extract_pipeline (options : ExtractOptions) (id a s : Bytes) (pa ps : Parsed)
    (ha : parse options.catalog a = .ok pa) (hpa : pa.diagnostics = [])
    (hone : pa.root.children.map form = [.expressionStatement])
    (hlast : ∀ t ∈ lastToken? a, t.kind ≠ .semicolon)
    (hs : parse options.catalog (bytes "print 1\n|" ++ s) = .ok ps) (hps : ps.diagnostics = [])
    (hsone : ps.root.children.length = 1) :
    ∃ p fa fs, parse options.catalog (a ++ bytes "\n|" ++ s) = .ok p ∧ p.diagnostics = [] ∧
      (extract options id a).outcome = .ok fa ∧
      (extract options id (bytes "print 1\n|" ++ s)).outcome = .ok fs ∧
      (extract options id (a ++ bytes "\n|" ++ s)).outcome = .ok (fa.union fs) := by
  obtain ⟨ra, node, hexpr, hroota⟩ := isExpression_of_parse ha hpa hone hlast
  obtain ⟨rs, nodes, hrs, hsounds, hreads, hroots⟩ := parse_sound hs hps
  have hprinted : Parsed.withoutMark (bytes "print 1\n|" ++ s) = piped (bytes "print 1") s := by
    rw [show bytes "print 1\n|" = bytes "print 1" ++ [lineFeed, byteOf '|'] by decide,
      List.append_assoc]
    exact withoutMark_append (bytes "print 1") _
  have hpiped : Parsed.withoutMark (a ++ bytes "\n|" ++ s) = piped (Parsed.withoutMark a) s := by
    rw [show bytes "\n|" = [lineFeed, byteOf '|'] by decide, List.append_assoc]
    exact withoutMark_append a _
  obtain ⟨whole, rfl⟩ : ∃ whole, nodes = [whole] := by
    rw [← List.length_map form, hroots, forms_queryOf] at hsone
    exact List.length_eq_one_iff.1 (by simpa using hsone)
  rw [hprinted] at hrs hreads
  obtain ⟨r, whole', x, x', base, base', span, span', first, first', hr, hsound, hwhole, hprint,
    hlike, hnode, hlike', hstacked⟩ := reads_piped isExpression_print hexpr hrs hsounds hreads
  obtain ⟨z, z', span1, span1', first1, first1', rfl, rfl, hz⟩ := hstacked
  subst hnode
  -- what is shown before the operators: by the one text all of its facts, by the other nothing
  have hbase : ((base.inSlot .expression).resolve options.catalog Scopes.top.push .tabular).findings
      options.normalize = [] := by
    have hreadsPrint := isExpression_print.reads
    rw [hprint] at hreadsPrint
    rw [← findings_like (hlike.inSlot .expression),
      ← statementFindings_expression isExpression_print.tokens hreadsPrint, ← hprint]
    exact statementFindings_print
  obtain ⟨more, hmore, hmore'⟩ := findings_stacked hz Scopes.top.push
  rw [hbase, List.nil_append] at hmore
  rw [← hpiped] at hr hwhole
  obtain ⟨p, hparse, hp, hroot⟩ := parse_of_reads options.catalog hr hsound hwhole
  refine ⟨p, _, _, hparse, hp, outcome_extract ha hpa hroota, outcome_extract hs hps hroots, ?_⟩
  rw [outcome_extract hparse hp hroot, ← Facts.ofFindings_append id id,
    statementFindings_expression hr hwhole, statementFindings_expression hrs hreads,
    statementFindings_expression hexpr.tokens hexpr.reads, hmore, hmore',
    findings_like (hlike'.inSlot .expression)]

/-- A table that is joined, then counted. -/
theorem extract_pipeline_join_count :
    ∃ p fa fs, parse .empty (bytes "T|join U on k" ++ bytes "\n|" ++ bytes "count") = .ok p ∧
      p.diagnostics = [] ∧
      (extract ⟨.empty, true⟩ (bytes "q") (bytes "T|join U on k")).outcome = .ok fa ∧
      (extract ⟨.empty, true⟩ (bytes "q") (bytes "print 1\n|" ++ bytes "count")).outcome = .ok fs ∧
      (extract ⟨.empty, true⟩ (bytes "q")
        (bytes "T|join U on k" ++ bytes "\n|" ++ bytes "count")).outcome = .ok (fa.union fs) := by
  have hfirst : (cleanRoot? .empty (bytes "T|join U on k")).map (·.children.map form) =
      some [.expressionStatement] := by decide +kernel
  have hsecond : (cleanRoot? .empty (bytes "print 1\n|" ++ bytes "count")).map
      (·.children.length) = some 1 := by decide +kernel
  have hlast : (lastToken? (bytes "T|join U on k")).map (·.kind) = some .word := by decide +kernel
  obtain ⟨pa, ha, hpa, hone⟩ := parse_of_clean hfirst
  obtain ⟨ps, hs, hps, hsone⟩ := parse_of_clean hsecond
  refine extract_pipeline ⟨.empty, true⟩ (bytes "q") _ _ pa ps ha hpa hone (fun t ht => ?_) hs hps
    hsone
  rw [Option.mem_def.1 ht, Option.map_some, Option.some.injEq] at hlast
  rw [hlast]
  decide

end KustoFacts
