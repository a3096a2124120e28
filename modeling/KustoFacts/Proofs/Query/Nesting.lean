import KustoFacts.Proofs.Query.NestedSearches

/-!
    How deep operators stand inside each other. Every operator on a way down the tree of a text
    takes one of the levels that reading may go down, except for a search in whose sources the way
    goes on. Without such sources there are never more operators on a way than levels; with them
    there can be any number, and no fault is reported. -/

namespace KustoFacts

/-- On a way down the tree of a text there are no more operators than levels, not counting those in
    whose sources the way goes on. -/
theorem operators_le_of_parse {catalog : TableNames} {text : Bytes} {p : Parsed} {ns : List Node}
    (h : parse catalog text = .ok p) (hpath : p.root.Path ns) :
    ns.countP Node.isOperator ≤ maxNesting + Node.sourcesOn ns := by
  obtain ⟨read, -, hgrown⟩ := grown_parse h
  exact hgrown.operators_le (wellFormed_parse h) hpath

/-- The way through the source of a search. -/
theorem operators_le_of_parse_search :
    ∃ p ns, parse .empty (bytes "find in (T|count)") = .ok p ∧ p.root.Path ns ∧
      ns.countP Node.isOperator = 2 ∧ Node.sourcesOn ns = 1 ∧
      ns.countP Node.isOperator ≤ maxNesting + Node.sourcesOn ns := by
  have hview : (cleanRoot? .empty (bytes "find in (T|count)")).map (fun root =>
      root.children.any fun a => a.children.any fun b => b.children.any fun c =>
        c.children.any fun d => decide ([root, a, b, c, d].countP Node.isOperator = 2 ∧
          Node.sourcesOn [root, a, b, c, d] = 1)) = some true := by decide +kernel
  obtain ⟨p, hparse, -, hview⟩ := parse_of_clean hview
  simp only [List.any_eq_true, decide_eq_true_eq] at hview
  obtain ⟨a, ha, b, hb, c, hc, d, hd, hoperators, hsources⟩ := hview
  have hpath : p.root.Path [p.root, a, b, c, d] :=
    .down ha (.down hb (.down hc (.down hd (.here d))))
  exact ⟨p, _, hparse, hpath, hoperators, hsources, operators_le_of_parse hparse hpath⟩

/-- One search more than there are levels, each the source of the one around it, is not reported. -/
theorem nesting_not_reported :
    ∃ p ns, parse .empty (nestedSearches (maxNesting + 1)) = .ok p ∧ p.diagnostics = [] ∧
      p.root.Path ns ∧ maxNesting < ns.countP Node.isOperator := by
  obtain ⟨p, hparse, hclean, hnests⟩ := parse_nestedSearches .empty maxNesting
  obtain ⟨ns, hpath, hns⟩ := hnests.exists_path
  exact ⟨p, ns, hparse, hclean, hpath, hns⟩

end KustoFacts
