import KustoFacts.Proofs.Facts.Outcome
import KustoFacts.Proofs.Query.Quoting

/-!
    Tables with any name. A name in brackets and quotes is a whole query, and its facts are the table
    of that name and nothing else, whatever bytes the name is made of. -/

namespace KustoFacts

open KustoFacts.Parser

/-! ### A name in brackets -/

namespace Token

/-- An opening bracket. -/
def openingBracket : Position → Token := ofText .leftBracket (bytes "[")

/-- A closing bracket. -/
def closingBracket : Position → Token := ofText .rightBracket (bytes "]")

end Token

namespace Bracketed

variable {literal : Bytes}

/-- The tokens of a string in brackets. -/
theorem tokenize (h : Lexeme.Spells .string (bytes "]") literal) : ∃ p q r after,
    KustoFacts.tokenize (bytes "[" ++ literal ++ bytes "]") =
      .ok ⟨[.openingBracket p, .ofText .string literal q, .closingBracket r], .endAt after, []⟩ := by
  have hopening : Lexeme.Spells .leftBracket (literal ++ bytes "]") (bytes "[") := ⟨rfl, rfl⟩
  have hclosing : Lexeme.Spells .rightBracket [] (bytes "]") := ⟨rfl, rfl⟩
  let q := Position.start.advance (bytes "[")
  let r := q.advance literal
  have hlast := Tokens.readFrom_token hclosing r
    [.ofText .string literal q, .openingBracket .start] []
  rw [List.append_nil] at hlast
  refine ⟨.start, q, r, r.advance (bytes "]"), ?_⟩
  rw [KustoFacts.tokenize, List.append_assoc, Tokens.readFrom_token hopening,
    Tokens.readFrom_token h]
  exact hlast

/-- They are read as the name that the string stands for, and nothing follows it. -/
theorem reads (text literal : Bytes) (p q r after : Position) : ∃ span span',
    Reads text
      ⟨[.openingBracket p, .ofText .string literal q, .closingBracket r], .endAt after, []⟩
      [.mk .none .expressionStatement span (.openingBracket p)
        [.mk .expression (.nameReference (Unquoted.value literal) .unknown) span'
          (.openingBracket p) []]] :=
  ⟨_, _, rfl, rfl, rfl⟩

/-- The text of a string in brackets shows the table of that name. -/
theorem findings_parse (catalog : TableNames) (normalize : Bool)
    (h : Lexeme.Spells .string (bytes "]") literal) :
    ∃ p, parse catalog (bytes "[" ++ literal ++ bytes "]") = .ok p ∧ p.diagnostics = [] ∧
      (p.root.inSlot .none).findings normalize = [.table (Unquoted.value literal)] := by
  obtain ⟨p, q, r, after, hread⟩ := tokenize h
  have hmark : Parsed.withoutMark (bytes "[" ++ literal ++ bytes "]") =
      bytes "[" ++ literal ++ bytes "]" := withoutMark_eq rfl
  obtain ⟨span, span', hreads⟩ := reads (bytes "[" ++ literal ++ bytes "]") literal p q r after
  rw [← hmark] at hread hreads
  obtain ⟨parsed, hparse, hclean, hroot⟩ := parse_of_reads catalog hread rfl hreads
  refine ⟨parsed, hparse, hclean, ?_⟩
  -- the only statement of a text is a place for a table
  have hsymbol : resolveName catalog Scopes.top.push true (Unquoted.value literal) = .table := by
    rw [resolveName, show Scopes.top.push.find? (Unquoted.value literal) = none from rfl]
    simp
  rw [hroot, queryOf, Node.resolve]
  simp [Node.resolve, Node.resolveStatements, Node.resolveChildren, Node.declareParams,
    childStance, Node.inSlot, Node.findings_mk, Node.shows, Node.finding, Node.form, Node.role,
    Stance.isTabular, hsymbol]

end Bracketed

/-! ### Any name -/

/-- The facts that show one table. -/
theorem Facts.ofFindings_table (id name : Bytes) :
    Facts.ofFindings id [.table name] = { Facts.empty id with tables := .ofList [name] } := rfl

theorem NameSet.items_ofList_singleton (name : Bytes) :
    (NameSet.ofList [name]).items = if name = [] then [] else [name] := by
  by_cases h : name = []
  · simp [h, ofList, addAll, add, empty]
  · simp [h, ofList, addAll, add, empty, insertAscending]

/-- Every text is written in quotes as one string token that stands for it. A query that is this
    string in brackets has the table of that name, or no table if the name is empty, and no other
    facts. Every text without a line feed is also written as one verbatim string. -/
theorem quoted_names (options : ExtractOptions) (id v : Bytes) :
    (tokenize (Quoting.quoted v) =
        .ok ⟨[.ofText .string (Quoting.quoted v) .start],
          .endAt (Position.start.advance (Quoting.quoted v)), []⟩ ∧
      Unquoted.value (Quoting.quoted v) = v ∧
      ∃ tables : NameSet,
        (extract options id (bytes "[" ++ Quoting.quoted v ++ bytes "]")).outcome =
          .ok { Facts.empty id with tables := tables } ∧
        tables.items = if v = [] then [] else [v]) ∧
    (lineFeed ∉ v →
      tokenize (Quoting.verbatim v) =
        .ok ⟨[.ofText .string (Quoting.verbatim v) .start],
          .endAt (Position.start.advance (Quoting.verbatim v)), []⟩ ∧
      Unquoted.value (Quoting.verbatim v) = v) := by
  refine ⟨⟨Tokens.tokenize_spelled (Quoting.spells_quoted v []), Quoting.value_quoted v,
    .ofList [v], ?_, NameSet.items_ofList_singleton v⟩, fun hv => ?_⟩
  · obtain ⟨p, hparse, hclean, hfindings⟩ :=
      Bracketed.findings_parse options.catalog options.normalize
        (Quoting.spells_quoted v (bytes "]"))
    rw [outcome_parsed hparse hclean, hfindings, Quoting.value_quoted, Facts.ofFindings_table]
  · exact ⟨Tokens.tokenize_spelled (Quoting.spells_verbatim hv nofun), Quoting.value_verbatim v⟩

/-- A name with a quote and a backslash. -/
theorem quoted_names_backslash :
    lineFeed ∉ bytes "it's\\" ∧
      tokenize (bytes "@'it''s\\'") =
        .ok ⟨[.ofText .string (bytes "@'it''s\\'") .start], .endAt ⟨9, 1, 10⟩, []⟩ ∧
      (extract ⟨.empty, true⟩ (bytes "q") (bytes "['it\\'s\\\\']")).outcome.toOption.map
        (·.tables.items) = some [bytes "it's\\"] := by
  have hnames := quoted_names ⟨.empty, true⟩ (bytes "q") (bytes "it's\\")
  have hfeed : lineFeed ∉ bytes "it's\\" := by decide
  obtain ⟨tables, houtcome, hitems⟩ := hnames.1.2.2
  refine ⟨hfeed, (hnames.2 hfeed).1, ?_⟩
  have htext : bytes "[" ++ Quoting.quoted (bytes "it's\\") ++ bytes "]" =
      bytes "['it\\'s\\\\']" := by decide
  rw [htext] at houtcome
  rw [houtcome]
  exact congrArg some hitems

end KustoFacts
