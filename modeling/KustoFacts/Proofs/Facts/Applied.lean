import KustoFacts.Proofs.Facts.Shown
import KustoFacts.Proofs.Query.ParsedGrown

/-!
    Calls and operators in the text. Every function that is found is called in the text: its name is
    a word right before an opening parenthesis. Every operator that is found is applied in the text:
    it is a word that may follow a pipe, and it stands right after a pipe or an opening parenthesis,
    where a subquery may begin with its operator. -/

namespace KustoFacts

/-- Operators are applied in pipelines alone. -/
theorem Form.pipe_of_admits {form : Form} {slots : List (Role × Part)} (h : form.Admits slots)
    {slot : Role × Part} (hslot : slot ∈ slots) (hrole : slot.1 = .operator) :
    form = .pipeExpression := by
  cases form with
  | pipeExpression => rfl
  | stub kind fault => exact h.elim
  | _ =>
    simp only [Form.Admits] at h
    grind [Form.Slots]

namespace Node

variable {text : Bytes} {read : Tokens} {k : Nat} {name : Bytes} {n : Node}

/-- A call is spelled in the text. -/
theorem Grown.calls (h : n.Grown text read k) (hform : n.form = .functionCall name) :
    read.Calls name := by
  have hspelled := h.spelled
  rwa [hform] at hspelled

/-- Whatever stands in the place of an operator is applied in the text. -/
theorem Grown.applies (h : n.Grown text read k) (hwell : n.WellFormed text) {c : Node}
    (hc : c ∈ n.children) (hrole : c.role = .operator) : read.Applies c := by
  have hpipe : n.form = .pipeExpression :=
    Form.pipe_of_admits hwell.admits (List.mem_map_of_mem hc) hrole
  have hspelled := h.spelled
  rw [hpipe] at hspelled
  exact hspelled c hc hrole

end Node

/-- The functions and operators of a text are spelled by its tokens: a function by a word with an
    opening parenthesis after it, and an operator by a word that may follow a pipe, other than those
    of joins and lookups, with a pipe or an opening parenthesis before it. -/
theorem calls_operators_spelled (options : ExtractOptions) (id text : Bytes) (facts : Facts)
    (h : (extract options id text).outcome = .ok facts) :
    ∃ read, tokenize (Parsed.withoutMark text) = .ok read ∧
      (∀ name ∈ facts.functionCalls.items, ∃ word paren, [word, paren] <:+: read.tokens ∧
        word.kind = .word ∧ word.text = name ∧ paren.kind = .leftParen) ∧
      ∀ name ∈ facts.operators.items,
        name ∈ pipeOperators ∧ name ≠ bytes "join" ∧ name ≠ bytes "lookup" ∧
          ∃ before word, [before, word] <:+: read.tokens ∧ word.kind = .word ∧ word.text = name ∧
            (before.kind = .pipe ∨ before.kind = .leftParen) := by
  obtain ⟨p, hparse, -, rfl⟩ := parse_of_outcome h
  obtain ⟨read, hread, rfl⟩ := parse_ok hparse
  have hwell := wellFormed_parse hparse
  have hgrown : (Parsed.ofTokens options.catalog (Parsed.withoutMark text) read).root.Grown
      (Parsed.withoutMark text) read maxNesting := (grown_parseTokens hread).resolve .top .scalar
  refine ⟨read, hread, fun name hname => ?_, fun name hname => ?_⟩
  · obtain ⟨-, hfound⟩ := Facts.mem_functionCalls_ofFindings.1 hname
    obtain ⟨n, hnode, hshows, -⟩ := exists_shows_parse hparse hfound
    cases hshows with
    | call form => exact (hgrown.preorder n hnode).calls form
  · obtain ⟨-, hfound⟩ := Facts.mem_operators_ofFindings.1 hname
    obtain ⟨n, -, hshows, parent, hparent, hn⟩ := exists_shows_parse hparse hfound
    cases hshows with
    | operator role join lookup =>
      obtain ⟨hoperates, before, hbefore, hkind⟩ :=
        (hgrown.preorder parent hparent).applies (hwell.preorder parent hparent) hn role
      have hjoins : ¬(n.first.text = bytes "join" ∨ n.first.text = bytes "lookup") := fun hword =>
        (hoperates.joins hword).elim join lookup
      obtain ⟨hjoin, hlookup⟩ := not_or.1 hjoins
      exact ⟨hoperates.known, hjoin, hlookup, before, n.first, hbefore, hoperates.word, rfl, hkind⟩

/-- A subquery that begins with its operator. -/
theorem calls_operators_spelled_subquery :
    ∃ facts read, (extract ⟨.empty, true⟩ (bytes "q")
        (bytes "T|facet by x with (where f(x))")).outcome = .ok facts ∧
      facts.functionCalls.items = [bytes "f"] ∧
      facts.operators.items = [bytes "facet", bytes "where"] ∧
      tokenize (Parsed.withoutMark (bytes "T|facet by x with (where f(x))")) = .ok read ∧
      read.Calls (bytes "f") ∧
      ∃ before word, [before, word] <:+: read.tokens ∧ word.kind = .word ∧
        word.text = bytes "where" ∧ (before.kind = .pipe ∨ before.kind = .leftParen) := by
  have hview : (extract ⟨.empty, true⟩ (bytes "q")
      (bytes "T|facet by x with (where f(x))")).outcome.toOption.map
        (fun facts => (facts.functionCalls.items, facts.operators.items)) =
          some ([bytes "f"], [bytes "facet", bytes "where"]) := by
    rw [toOption_outcome]
    decide +kernel
  obtain ⟨facts, houtcome, hview⟩ := ok_of_map hview
  obtain ⟨hcalls, hoperators⟩ := Prod.mk.inj hview
  obtain ⟨read, hread, hspelled, happlied⟩ := calls_operators_spelled _ _ _ facts houtcome
  have hcall : bytes "f" ∈ facts.functionCalls.items := hcalls ▸ List.mem_cons_self
  have hwhere : bytes "where" ∈ facts.operators.items :=
    hoperators ▸ List.mem_cons_of_mem _ List.mem_cons_self
  obtain ⟨-, -, -, hwords⟩ := happlied _ hwhere
  exact ⟨facts, read, houtcome, hcalls, hoperators, hread, hspelled _ hcall, hwords⟩

end KustoFacts
