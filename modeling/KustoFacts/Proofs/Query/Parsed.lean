import KustoFacts.Proofs.Query.ParserShape
import KustoFacts.Proofs.Query.Resolved
import KustoFacts.Proofs.Query.Root
import KustoFacts.Proofs.Query.Tokens
import KustoFacts.Query.Parsed

/-!
    Parsed texts. The tree of every text that has tokens is well formed, faults or not. A text
    without faults is one whose tokens have none and whose statements are read without a report;
    its tree is the query of these statements, resolved. -/

namespace KustoFacts

open KustoFacts.Parser

variable {catalog : TableNames} {text : Bytes} {read : Tokens} {p : Parsed}

/-! ### Well-formed trees -/

/-- The tokens of a text stand in it. -/
theorem Parser.inside_initial (h : tokenize text = .ok read) : (initial text read).Inside text := by
  obtain ⟨hstands, -, hoffset, hstop⟩ := Tokens.stands_readFrom (Nat.zero_le _) h
  rw [show Position.start.offset = 0 from rfl, Nat.zero_add] at hoffset hstop
  refine ⟨fun t ht => ?_, Nat.zero_le _⟩
  rcases List.mem_cons.1 ht with rfl | ht
  · exact ⟨Nat.le_of_eq hoffset, Nat.le_of_eq hstop⟩
  · have h := hstands t ht
    exact ⟨by simpa [Position.start] using h.offset, by simpa [Position.start] using h.stop⟩

theorem made_parseTokens (h : tokenize text = .ok read) :
    (parseTokens text read).1.MadeAs text .query := by
  have hinside := inside_initial h
  have hyields := shapes_reachIn text (enough read.tokens.length) (.query .endOfInput) _ hinside
  rw [parseTokens, runQuery]
  rcases hrun : (Grammar.reachIn (enough read.tokens.length) (.query .endOfInput)).run
    (initial text read) with ⟨_ | root, s⟩ <;> simp only [hrun] at hyields
  · have hfirst := (hinside.tokens _ (ParserState.current_mem _)).1
    refine ⟨⟨?_, .mk ?_ (List.forall_mem_nil _)⟩, rfl⟩
    · exact .mk (Nat.le_refl _) hfirst (List.forall_mem_nil _) (List.forall_mem_nil _)
    · exact fun _ => List.forall_mem_nil _
  · exact hyields root rfl

theorem is_parseTokens (h : tokenize text = .ok read) :
    (parseTokens text read).1.Is text .query := (made_parseTokens h).is

theorem parse_ok (h : parse catalog text = .ok p) :
    ∃ read, tokenize (Parsed.withoutMark text) = .ok read ∧
      p = .ofTokens catalog (Parsed.withoutMark text) read := by
  rw [parse] at h
  rcases hread : tokenize (Parsed.withoutMark text) with e | read <;> rw [hread] at h <;> cases h
  exact ⟨read, rfl, rfl⟩

/-- Parsing fails exactly when there are no tokens. -/
theorem parse_eq_error_iff {o : Overrun} :
    parse catalog text = .error o ↔ tokenize (Parsed.withoutMark text) = .error o := by
  rw [parse]
  cases tokenize (Parsed.withoutMark text) <;> simp [Except.map]

/-- What can be asked of a result that is there. -/
theorem ok_of_map {ε α β : Type} {e : Except ε α} {f : α → β} {x : β}
    (h : e.toOption.map f = some x) : ∃ a, e = .ok a ∧ f a = x := by
  cases e with
  | error e => cases h
  | ok a => exact ⟨a, rfl, Option.some.inj h⟩

/-- What can be asked of a text that is parsed. -/
theorem parse_of_map {α : Type} {f : Parsed → α} {x : α}
    (h : (parse catalog text).toOption.map f = some x) :
    ∃ p, parse catalog text = .ok p ∧ f p = x := ok_of_map h

/-- The tree of a parsed text is well formed. -/
theorem wellFormed_parse (h : parse catalog text = .ok p) : p.root.WellFormed p.text := by
  obtain ⟨read, hread, rfl⟩ := parse_ok h
  exact Node.wellFormed_resolve .top .scalar _ (is_parseTokens hread).1

/-- The tree of a text is a query. -/
theorem form_parse (h : parse catalog text = .ok p) : p.root.form = .query := by
  obtain ⟨read, hread, rfl⟩ := parse_ok h
  have hslot : (Parsed.ofTokens catalog (Parsed.withoutMark text) read).root.slot = _ :=
    Node.slot_resolve ..
  have hpart := (congrArg Prod.snd hslot).trans (is_parseTokens hread).2
  rw [Node.slot] at hpart
  cases hform : (Parsed.ofTokens catalog (Parsed.withoutMark text) read).root.form with
  | query => rfl
  | _ =>
    rw [hform] at hpart
    cases hpart

/-! ### Texts with faults -/

/-- The tree of a text, the faults of its tokens, and those that the parser reports, before the
    faults are put in order. -/
def reading (catalog : TableNames) (text : Bytes) :
    Except Overrun (Node × List Diagnostic × List Diagnostic) :=
  (tokenize (Parsed.withoutMark text)).map fun read =>
    let (root, reported) := parseTokens (Parsed.withoutMark text) read
    (root.resolve catalog .top .scalar, read.diagnostics, reported)

/-- What can be asked of the tree of a text and of its faults. -/
theorem parse_of_reading {α : Type} {f : Node × List Diagnostic × List Diagnostic → α} {x : α}
    (h : (reading catalog text).toOption.map f = some x) :
    ∃ p lexed reported, parse catalog text = .ok p ∧
      p.diagnostics = mergeByStart Diagnostic.start lexed reported ∧
      f (p.root, lexed, reported) = x := by
  obtain ⟨⟨root, lexed, reported⟩, hreading, rfl⟩ := ok_of_map h
  rw [reading] at hreading
  cases hread : tokenize (Parsed.withoutMark text) with
  | error o =>
    rw [hread] at hreading
    cases hreading
  | ok read =>
    rw [hread] at hreading
    cases hreading
    exact ⟨.ofTokens catalog (Parsed.withoutMark text) read, _, _, by rw [parse, hread]; rfl, rfl, rfl⟩

theorem length_mergeByStart {α : Type} {start : α → Nat} {xs ys : List α} :
    (mergeByStart start xs ys).length = xs.length + ys.length := List.length_merge ..

/-! ### Texts without faults -/

theorem mergeByStart_eq_nil {α : Type} {start : α → Nat} {xs ys : List α} :
    mergeByStart start xs ys = [] ↔ xs = [] ∧ ys = [] := by
  rw [← List.length_eq_zero_iff, length_mergeByStart, ← List.length_eq_zero_iff,
    ← List.length_eq_zero_iff]
  omega

/-- The tree of a text without faults. Where the lexer and the parser find none, there are no faults
    to be put in order. -/
def cleanRoot? (catalog : TableNames) (text : Bytes) : Option Node :=
  match tokenize (Parsed.withoutMark text) with
  | .ok read =>
    let (root, reported) := parseTokens (Parsed.withoutMark text) read
    if read.diagnostics.isEmpty && reported.isEmpty then some (root.resolve catalog .top .scalar)
    else none
  | .error _ => none

theorem cleanRoot?_eq_some {root : Node} :
    cleanRoot? catalog text = some root ↔
      ∃ p, parse catalog text = .ok p ∧ p.diagnostics = [] ∧ p.root = root := by
  unfold cleanRoot?
  rcases hread : tokenize (Parsed.withoutMark text) with o | read
  · refine ⟨nofun, ?_⟩
    rintro ⟨p, hparse, -⟩
    rw [parse, hread] at hparse
    cases hparse
  · have hparse : parse catalog text = .ok (.ofTokens catalog (Parsed.withoutMark text) read) := by
      rw [parse, hread]
      rfl
    have hclean : (Parsed.ofTokens catalog (Parsed.withoutMark text) read).diagnostics = [] ↔
        (read.diagnostics.isEmpty && (parseTokens (Parsed.withoutMark text) read).2.isEmpty) := by
      rw [Bool.and_eq_true, List.isEmpty_iff, List.isEmpty_iff]
      exact mergeByStart_eq_nil
    simp only [hparse, Except.ok.injEq, exists_eq_left', hclean, Option.ite_none_right_eq_some,
      Option.some.injEq]
    rfl

/-- What can be asked of the tree of a text without faults. -/
theorem parse_of_clean {α : Type} {f : Node → α} {x : α}
    (h : (cleanRoot? catalog text).map f = some x) :
    ∃ p, parse catalog text = .ok p ∧ p.diagnostics = [] ∧ f p.root = x := by
  obtain ⟨root, hroot, rfl⟩ := Option.map_eq_some_iff.1 h
  obtain ⟨p, hparse, hclean, rfl⟩ := cleanRoot?_eq_some.1 hroot
  exact ⟨p, hparse, hclean, rfl⟩

/-- Nothing is reported exactly if the statements are read without a report. -/
theorem reads_iff : (parseTokens text read).2 = [] ↔ ∃ nodes, Reads text read nodes := by
  obtain ⟨-, -, hreported, -⟩ := runQuery_eq text read
  have hforward : (start text read).Forward (statementsOf text read).2 := forward_rounds _ _ _ _
  have hhonest := honest_rounds (statementRound (.forTokens read.tokens.length) .endOfInput)
    (2 * read.tokens.length + 1) [] (start text read)
  rw [parseTokens]
  simp only [List.reverse_eq_nil_iff, hreported]
  constructor
  · intro hnil
    have hclean : (statementsOf text read).2.Clean := by
      refine ⟨?_, hnil⟩
      cases hdeep : (statementsOf text read).2.tooDeep with
      | false => rfl
      | true => exact absurd hnil ((hforward.deepReported hdeep).resolve_left Bool.false_ne_true)
    cases hnodes : (statementsOf text read).1 with
    | none => exact absurd hclean (hhonest hnodes)
    | some nodes => exact ⟨nodes, hnodes, hclean⟩
  · rintro ⟨nodes, -, hclean⟩
    exact hclean.2

/-- The tree of a text that is read without a report. -/
def queryOf (text : Bytes) (read : Tokens) (nodes : List Node) : Node :=
  .mk .none .query (ParserState.spanFrom (statementsOf text read).2 (initial text read).current)
    (initial text read).current (nodes.map (·.inSlot .statement))

/-- The statements of a resolved query have the forms they were read with. -/
theorem forms_queryOf (nodes : List Node) :
    ((queryOf text read nodes).resolve catalog .top .scalar).children.map Node.form =
      (nodes.map (·.inSlot .statement)).map Node.form := by
  rw [queryOf, Node.resolve, Node.children, Node.map_form_resolveStatements]

theorem parseTokens_of_reads {nodes : List Node} (h : Reads text read nodes) :
    parseTokens text read = (queryOf text read nodes, []) := by
  obtain ⟨htree, -, hreported, -⟩ := runQuery_eq text read
  rw [parseTokens]
  simp only [htree, hreported, h.1, h.2.2, List.reverse_nil]
  rfl

/-- A text without faults has its statements. -/
theorem parse_sound (h : parse catalog text = .ok p) (hp : p.diagnostics = []) :
    ∃ read nodes, tokenize (Parsed.withoutMark text) = .ok read ∧ read.diagnostics = [] ∧
      Reads (Parsed.withoutMark text) read nodes ∧
      p.root = (queryOf (Parsed.withoutMark text) read nodes).resolve catalog .top .scalar := by
  obtain ⟨read, hread, rfl⟩ := parse_ok h
  obtain ⟨hlexed, hreported⟩ := mergeByStart_eq_nil.1 hp
  obtain ⟨nodes, hnodes⟩ := reads_iff.1 hreported
  exact ⟨read, nodes, hread, hlexed, hnodes, by rw [Parsed.ofTokens, parseTokens_of_reads hnodes]⟩

/-- A text whose statements are read without a report has no faults. -/
theorem parse_of_reads (catalog : TableNames) {nodes : List Node}
    (hread : tokenize (Parsed.withoutMark text) = .ok read) (hlexed : read.diagnostics = [])
    (hnodes : Reads (Parsed.withoutMark text) read nodes) :
    ∃ p, parse catalog text = .ok p ∧ p.diagnostics = [] ∧
      p.root = (queryOf (Parsed.withoutMark text) read nodes).resolve catalog .top .scalar := by
  refine ⟨.ofTokens catalog (Parsed.withoutMark text) read, by rw [parse, hread]; rfl, ?_, ?_⟩
  · rw [Parsed.ofTokens, parseTokens_of_reads hnodes]
    exact mergeByStart_eq_nil.2 ⟨hlexed, rfl⟩
  · rw [Parsed.ofTokens, parseTokens_of_reads hnodes]

/-- The statements of a text that is read without a report are well formed. -/
theorem is_statement_of_reads {nodes : List Node} (hread : tokenize text = .ok read)
    (h : Reads text read nodes) :
    ∀ c ∈ nodes.map (·.inSlot .statement), c.Is text .statement := by
  intro c hc
  have hquery := is_parseTokens hread
  rw [parseTokens_of_reads h] at hquery
  have hslot := hquery.1.admits c.slot (List.mem_map_of_mem hc)
  exact ⟨hquery.1.children c hc, hslot.2⟩

/-! ### Byte order marks -/

/-- A byte order mark before a line feed does not reach beyond it. -/
theorem withoutMark_append (a rest : Bytes) :
    Parsed.withoutMark (a ++ lineFeed :: rest) = Parsed.withoutMark a ++ lineFeed :: rest := by
  have h1 : (0xEF : UInt8) ≠ lineFeed := by decide
  have h2 : (0xBB : UInt8) ≠ lineFeed := by decide
  have h3 : (0xBF : UInt8) ≠ lineFeed := by decide
  rcases a with _ | ⟨x, _ | ⟨y, _ | ⟨z, a⟩⟩⟩
  · simp [Parsed.withoutMark, Parsed.byteOrderMark, Bytes.after?, h1]
  · simp [Parsed.withoutMark, Parsed.byteOrderMark, Bytes.after?, h2]
  · simp [Parsed.withoutMark, Parsed.byteOrderMark, Bytes.after?, h3]
  · simp only [Parsed.withoutMark, Parsed.byteOrderMark, Bytes.after?, List.cons_append]
    by_cases hmark : (0xEF : UInt8) = x ∧ (0xBB : UInt8) = y ∧ (0xBF : UInt8) = z
    · simp [hmark]
    · grind

theorem withoutMark_eq {b : Bytes} (h : b.beginsWith Parsed.byteOrderMark = false) :
    Parsed.withoutMark b = b := by
  rw [Bytes.beginsWith, Option.isSome_eq_false_iff, Option.isNone_iff_eq_none] at h
  rw [Parsed.withoutMark, h, Option.getD_none]

end KustoFacts
