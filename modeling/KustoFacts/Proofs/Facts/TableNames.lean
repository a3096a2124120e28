import KustoFacts.Proofs.Facts.Tables
import KustoFacts.Proofs.Query.ParsedGrown

/-!
    Where the names of tables come from. Every table that is found in a text is spelled by its
    tokens: as a word, as the value of a string, or as what stands in brackets after a dot. In the
    last place the parser takes any token for a string, and a number there gives a table a name that
    is not in the text. -/

namespace KustoFacts

/-- A text without faults has the tables that its tree refers to. -/
theorem tables_parsed (options : ExtractOptions) (id : Bytes) {text : Bytes} {p : Parsed}
    (hparse : parse options.catalog text = .ok p) (hclean : p.diagnostics = []) :
    ∃ facts, (extract options id text).outcome = .ok facts ∧
      ∀ name, name ∈ facts.tables.items ↔ name ≠ [] ∧ name ∈ p.root.tables := by
  refine ⟨_, outcome_parsed hparse hclean, fun name => ?_⟩
  rw [Facts.mem_tables_ofFindings, Node.table_mem_findings_iff]

/-- A node in a grown tree that refers to a table has its name from the tokens. -/
theorem Node.Grown.names_tables {text : Bytes} {read : Tokens} {k : Nat} {root : Node}
    (h : root.Grown text read k) : ∀ name ∈ root.tables, read.Names name := by
  intro name hname
  obtain ⟨n, hn, htable⟩ := List.mem_filterMap.1 hname
  have hform : n.form = .nameReference name .table := by
    unfold table? at htable
    split at htable
    · cases htable
      assumption
    · cases htable
  have hspelled := (h.preorder n hn).spelled
  rwa [hform] at hspelled

/-- The name of every table that is found in a text is spelled by the tokens of the text. -/
theorem tables_named (options : ExtractOptions) (id text : Bytes) (facts : Facts)
    (h : (extract options id text).outcome = .ok facts) :
    ∃ read, tokenize (Parsed.withoutMark text) = .ok read ∧
      ∀ name ∈ facts.tables.items, read.Names name := by
  obtain ⟨p, hparse, -, rfl⟩ := parse_of_outcome h
  obtain ⟨read, hread, rfl⟩ := parse_ok hparse
  refine ⟨read, hread, fun name hname => ?_⟩
  rw [Facts.mem_tables_ofFindings, Node.table_mem_findings_iff] at hname
  exact ((grown_parseTokens hread).resolve .top .scalar).names_tables name hname.2

/-- A table whose name is quoted. -/
theorem tables_named_quoted :
    ∃ facts read, (extract ⟨.empty, true⟩ (bytes "q") (bytes "union T,['a b']")).outcome = .ok facts ∧
      bytes "a b" ∈ facts.tables.items ∧
      tokenize (Parsed.withoutMark (bytes "union T,['a b']")) = .ok read ∧
      read.Names (bytes "a b") := by
  have hview : (cleanRoot? .empty (bytes "union T,['a b']")).map Node.tables =
      some [bytes "T", bytes "a b"] := by decide +kernel
  obtain ⟨p, hparse, hclean, htables⟩ := parse_of_clean hview
  obtain ⟨facts, houtcome, hfacts⟩ := tables_parsed ⟨.empty, true⟩ (bytes "q") hparse hclean
  have hmem : bytes "a b" ∈ facts.tables.items := by
    rw [hfacts, htables]
    exact ⟨by decide, List.mem_cons_of_mem _ List.mem_cons_self⟩
  obtain ⟨read, hread, hnames⟩ := tables_named _ _ _ facts houtcome
  exact ⟨facts, read, houtcome, hmem, hread, hnames _ hmem⟩

/-- A number in brackets after a dot is taken for a string: what is left of it without its first
    digit is among the tables, and neither a word nor the value of a string. -/
theorem number_names_table :
    ∃ facts read,
      (extract ⟨.empty, true⟩ (bytes "q1") (bytes "database(\"d\").[12]")).outcome = .ok facts ∧
      bytes "2" ∈ facts.tables.items ∧
      tokenize (Parsed.withoutMark (bytes "database(\"d\").[12]")) = .ok read ∧
      ∀ t ∈ read.tokens, ¬(t.kind = .word ∧ t.text = bytes "2") ∧
        ¬(t.kind = .string ∧ Unquoted.value t.text = bytes "2") := by
  have hview : (cleanRoot? .empty (bytes "database(\"d\").[12]")).map Node.tables =
      some [bytes "2"] := by decide +kernel
  obtain ⟨p, hparse, hclean, htables⟩ := parse_of_clean hview
  obtain ⟨read, hread, hnone⟩ : ∃ read,
      tokenize (Parsed.withoutMark (bytes "database(\"d\").[12]")) = .ok read ∧
      ∀ t ∈ read.tokens, ¬(t.kind = .word ∧ t.text = bytes "2") ∧
        ¬(t.kind = .string ∧ Unquoted.value t.text = bytes "2") := ⟨_, rfl, by decide⟩
  obtain ⟨facts, houtcome, hfacts⟩ := tables_parsed ⟨.empty, true⟩ (bytes "q1") hparse hclean
  refine ⟨facts, read, houtcome, ?_, hread, hnone⟩
  rw [hfacts, htables]
  exact ⟨by decide, List.mem_cons_self⟩

end KustoFacts
