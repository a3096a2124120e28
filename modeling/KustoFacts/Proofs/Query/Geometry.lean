import KustoFacts.Proofs.Query.ParsedGrown

/-!
    Where the nodes of a tree stand. Every node of a parsed text has a range of the text, which
    begins with a token and is empty at most for a query; the ranges of its children lie inside of
    it, one after another. This holds whether the text has faults or not, for what is read after a
    fault as well. -/

namespace KustoFacts

/-- A node has a range of a text, begins with a token, and has its children inside, in order. -/
structure Node.Placed (text : Bytes) (n : Node) : Prop where
  ordered : n.span.start ≤ n.span.stop
  inside : n.span.stop ≤ text.length
  spelling : ∃ before after, text = before ++ n.text text ++ after ∧
    before.length = n.span.start ∧ (before ++ n.text text).length = n.span.stop
  first : n.first.pos.offset = n.span.start
  solid : n.kind ≠ .query → n.span.start < n.span.stop
  children : ∀ c ∈ n.children, n.span.start ≤ c.span.start ∧ c.span.stop ≤ n.span.stop
  apart : n.children.Pairwise fun c d => c.span.stop ≤ d.span.start

/-- A slice divides a text in three. -/
theorem Bytes.slice_spec {text : Bytes} {start stop : Nat} (h : start ≤ stop)
    (hstop : stop ≤ text.length) :
    text = text.take start ++ text.slice start stop ++ text.drop stop ∧
      (text.take start).length = start ∧
      (text.take start ++ text.slice start stop).length = stop := by
  have hsplit : text.take start ++ text.slice start stop = text.take stop := by
    rw [Bytes.slice, ← List.take_add, Nat.add_sub_cancel' h]
  refine ⟨?_, ?_, ?_⟩
  · rw [hsplit, List.take_append_drop]
  · rw [List.length_take, Nat.min_eq_left (Nat.le_trans h hstop)]
  · rw [hsplit, List.length_take, Nat.min_eq_left hstop]

theorem Node.Grown.placed {text : Bytes} {read : Tokens} {k : Nat} {n : Node}
    (h : n.Grown text read k) : n.Placed text := by
  cases h with
  | @mk _ role form span first children token starts solid inside ordered spelled operator below =>
    have hsolid (hkind : form.kind ≠ .query) : span.start < span.stop := by
      refine solid ?_
      rintro rfl
      exact hkind rfl
    exact
      { ordered := ordered.le
        inside := inside
        spelling := ⟨_, _, Bytes.slice_spec ordered.le inside⟩
        first := starts
        solid := hsolid
        children := ordered.mem
        apart := ordered.pairwise }

theorem Node.Grown.first_mem {text : Bytes} {read : Tokens} {k : Nat} {n : Node}
    (h : n.Grown text read k) : n.first ∈ read.all := by
  cases h with
  | mk token => exact token

/-- Every node of the tree of a parsed text has its place in the text, and begins with a token of
    the text. -/
theorem placed_parse {catalog : TableNames} {text : Bytes} {p : Parsed}
    (h : parse catalog text = .ok p) :
    ∃ read, tokenize p.text = .ok read ∧
      ∀ n ∈ p.root.preorder, n.first ∈ read.all ∧ n.Placed p.text := by
  obtain ⟨read, hread, hgrown⟩ := grown_parse h
  refine ⟨read, hread, fun n hn => ?_⟩
  have hn := hgrown.preorder n hn
  exact ⟨hn.first_mem, hn.placed⟩

/-- A text with an empty block, and with a fault in another one. -/
theorem placed_parse_faults :
    ∃ p, parse .empty (bytes "let f=(){};let g=(){T|)};f()") = .ok p ∧
      p.diagnostics.length = 1 ∧ p.root.preorder.length = 11 ∧
      ∀ n ∈ p.root.preorder, n.Placed p.text := by
  have hview : (reading .empty (bytes "let f=(){};let g=(){T|)};f()")).toOption.map
      (fun (root, lexed, reported) => (lexed.length + reported.length, root.preorder.length)) =
        some (1, 11) := by decide +kernel
  obtain ⟨p, lexed, reported, hparse, hmerged, hview⟩ := parse_of_reading hview
  obtain ⟨hlength, hnodes⟩ := Prod.mk.inj hview
  have hdiagnostics : p.diagnostics.length = 1 := by rw [hmerged, length_mergeByStart, hlength]
  obtain ⟨read, -, hplaced⟩ := placed_parse hparse
  exact ⟨p, hparse, hdiagnostics, hnodes, fun n hn => (hplaced n hn).2⟩

end KustoFacts
