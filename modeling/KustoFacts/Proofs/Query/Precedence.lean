import KustoFacts.Proofs.Query.ParsedGrown

/-!
    Operators in the tree of a text. Each round of reading infix operators goes on with one that binds
    no tighter than the one read before it, and what is read on its right binds tighter, so that a
    node's operands bind as its operator asks when it is built (`Parser.climbed_binaryRound`). All
    nodes are built in this way, with faults in the text or without. -/

namespace KustoFacts

theorem Form.Spelled.binds {read : Tokens} {form : Form} {children : List Node}
    (h : form.Spelled read children) : form.Binds children := by
  cases form
  case binary | between | unary => exact h
  all_goals exact True.intro

/-- Infix operators of one level lean to the left, and tighter ones stand below looser ones: on the
    left of an infix operator stands no other that binds looser, unless it is a range that ends in
    its own parenthesis; on the right stands none that does not bind tighter; and behind a sign
    stands none. -/
theorem binds_of_parse {catalog : TableNames} {text : Bytes} {p : Parsed}
    (h : parse catalog text = .ok p) : ∀ n ∈ p.root.preorder, n.form.Binds n.children := by
  obtain ⟨read, -, hgrown⟩ := grown_parse h
  exact fun n hn => (hgrown.preorder n hn).spelled.binds

/-- Operators of all levels, a range between others of its level, and a sign. -/
theorem binds_of_parse_levels :
    ∃ p, parse .empty (bytes "a or b and c between (1 .. 2) == d - e - -f * g") = .ok p ∧
      p.diagnostics = [] ∧ p.root.preorder.filterMap (·.form.level?) = [1, 2, 3, 3, 4, 4, 5] ∧
      ∀ n ∈ p.root.preorder, n.form.Binds n.children := by
  have hview : (cleanRoot? .empty (bytes "a or b and c between (1 .. 2) == d - e - -f * g")).map
      (·.preorder.filterMap (·.form.level?)) = some [1, 2, 3, 3, 4, 4, 5] := by decide +kernel
  obtain ⟨p, hparse, hclean, hlevels⟩ := parse_of_clean hview
  exact ⟨p, hparse, hclean, hlevels, binds_of_parse hparse⟩

end KustoFacts
