import KustoFacts.Proofs.Query.ParsedGrown

/-!
    Operators inside each other. A way down a tree passes a node, one of its children, one of the
    children of this, and so on. In a grown tree the operators on a way down are as many at most as
    there is room for, if those are left out whose sources the way goes through: a search leaves its
    sources all the room that it has itself. -/

namespace KustoFacts

theorem Form.room_of_operator {form : Form} (h : form.part = .operator) (k : Nat) (role : Role) :
    form.room k role = k - 1 ∨ form.kind = .operator ∧ role = .operand := by
  cases form with
  | operator keyword =>
    by_cases hrole : role = .operand
    · exact .inr ⟨rfl, hrole⟩
    · exact .inl (by simp only [room, if_neg hrole])
  | join kind => exact .inl rfl
  | lookup kind => exact .inl rfl
  | union => exact .inl rfl
  | _ => cases h

namespace Node

/-- A way down from a node, given by the nodes that it passes. -/
inductive Path : Node → List Node → Prop where
  | here (n : Node) : Path n [n]
  | down {n c : Node} {ns : List Node} (hc : c ∈ n.children) (h : Path c (c :: ns)) :
      Path n (n :: c :: ns)

/-- Whether a node is an operator of any kind. -/
def isOperator (n : Node) : Bool :=
  n.kind = .operator || n.kind = .joinOperator || n.kind = .lookupOperator ||
    n.kind = .unionOperator

/-- How many times a way down goes from a search to one of its sources. -/
def sourcesOn : List Node → Nat
  | n :: c :: ns => (if n.kind = .operator ∧ c.role = .operand then 1 else 0) + sourcesOn (c :: ns)
  | _ => 0

variable {text : Bytes} {read : Tokens} {catalog : TableNames} {k m : Nat} {n c : Node}
  {ns : List Node}

theorem Path.exists_eq_cons (h : n.Path ns) : ∃ ms, ns = n :: ms := by
  cases h with
  | here => exact ⟨[], rfl⟩
  | down => exact ⟨_, rfl⟩

/-- In a well-formed tree only the operators are operators. -/
theorem WellFormed.part_of_isOperator (h : n.WellFormed text) (hn : n.isOperator = true) :
    n.form.part = .operator := by
  cases h with
  | @mk role form span first children ordered inside admits below =>
    cases form with
    | stub kind fault => exact admits.elim
    | operator keyword => rfl
    | join kind => rfl
    | lookup kind => rfl
    | union => rfl
    | _ => cases hn

/-- The operators on a way down, but for the searches in whose sources it goes on, take one level
    each. -/
theorem Grown.operators_le (h : n.Grown text read k) (hformed : n.WellFormed text)
    (hpath : n.Path ns) : ns.countP isOperator ≤ k + sourcesOn ns := by
  have head {n : Node} {k : Nat} (h : n.Grown text read k) (hformed : n.WellFormed text)
      (hn : n.isOperator = true) : 0 < k := by
    have hpart := hformed.part_of_isOperator hn
    cases h with
    | mk _ _ _ _ _ _ operator _ => exact operator hpart
  induction hpath generalizing k with
  | here n =>
    rw [List.countP_singleton]
    split
    · exact Nat.le_trans (head h hformed ‹_›) (Nat.le_add_right _ _)
    · exact Nat.zero_le _
  | @down n c ns hc _ ih =>
    have hchild : c.Grown text read (n.form.room k c.role) := by
      cases h with
      | mk _ _ _ _ _ _ _ below => exact below c hc
    have hbelow := ih hchild (hformed.children c hc)
    rw [List.countP_cons, sourcesOn]
    split
    next hn =>
      have hpos := head h hformed hn
      rcases Form.room_of_operator (hformed.part_of_isOperator hn) k c.role with hroom | hsource
      · omega
      · have hroom := n.form.room_le k c.role
        rw [kind, if_pos hsource]
        omega
    next =>
      have hroom := n.form.room_le k c.role
      omega

/-! ### Trees with many operators inside each other -/

/-- A number of operators stand inside each other in a node. -/
inductive Nests : Nat → Node → Prop where
  | zero (n : Node) : Nests 0 n
  | inside {m : Nat} {n c : Node} (hc : c ∈ n.children) (h : Nests m c) : Nests m n
  | operator {m : Nat} {n c : Node} (hn : n.isOperator = true) (hc : c ∈ n.children)
      (h : Nests m c) : Nests (m + 1) n

/-- Operators inside each other stand on one way down. -/
theorem Nests.exists_path (h : n.Nests m) : ∃ ns, n.Path ns ∧ m ≤ ns.countP isOperator := by
  have further {n c : Node} {m : Nat} (hc : c ∈ n.children)
      (h : ∃ ns, c.Path ns ∧ m ≤ ns.countP isOperator) :
      ∃ ns, n.Path (n :: ns) ∧ m ≤ ns.countP isOperator := by
    obtain ⟨ns, hpath, hm⟩ := h
    obtain ⟨ms, rfl⟩ := hpath.exists_eq_cons
    exact ⟨c :: ms, .down hc hpath, hm⟩
  induction h with
  | zero n => exact ⟨[n], .here n, Nat.zero_le _⟩
  | inside hc _ ih =>
    obtain ⟨ns, hpath, hm⟩ := further hc ih
    exact ⟨_, hpath, Nat.le_trans hm (List.sublist_cons_self ..).countP_le⟩
  | operator hn hc _ ih =>
    obtain ⟨ns, hpath, hm⟩ := further hc ih
    refine ⟨_, hpath, ?_⟩
    rw [List.countP_cons_of_pos hn]
    exact Nat.succ_le_succ hm

/-- Neither slots nor symbols count. -/
theorem Nests.of_bare (h : n.Nests m) {n' : Node} (hform : n'.form.bare = n.form.bare)
    (hchildren : n'.children.map bare = n.children.map bare) : n'.Nests m := by
  have child {n n' : Node} (hchildren : n'.children.map bare = n.children.map bare) {c : Node}
      (hc : c ∈ n.children) : ∃ c' ∈ n'.children, c'.form.bare = c.form.bare ∧
        c'.children.map bare = c.children.map bare := by
    obtain ⟨c', hc', hsame⟩ := List.mem_map.1 (hchildren ▸ List.mem_map_of_mem (f := bare) hc)
    refine ⟨c', hc', ?_, ?_⟩
    · rw [← form_bare, hsame, form_bare]
    · rw [← children_bare, hsame, children_bare]
  induction h generalizing n' with
  | zero n => exact .zero n'
  | inside hc _ ih =>
    obtain ⟨c', hc', hform', hchildren'⟩ := child hchildren hc
    exact .inside hc' (ih hform' hchildren')
  | @operator m n c hn hc _ ih =>
    obtain ⟨c', hc', hform', hchildren'⟩ := child hchildren hc
    refine .operator ?_ hc' (ih hform' hchildren')
    have hkind : n'.kind = n.kind := by
      rw [kind, ← Form.kind_bare, hform, Form.kind_bare, kind]
    rwa [isOperator, hkind]

theorem Nests.inSlot (h : n.Nests m) (r : Role) : (n.inSlot r).Nests m := by
  cases n
  exact h.of_bare rfl rfl

theorem Nests.resolve (h : n.Nests m) (scopes : Scopes) (stance : Stance) :
    (n.resolve catalog scopes stance).Nests m := by
  have hbare : (n.resolve catalog scopes stance).bare = n.bare := bare_resolve scopes stance n
  refine h.of_bare ?_ ?_
  · rw [← form_bare, hbare, form_bare]
  · rw [← children_bare, hbare, children_bare]

end Node
end KustoFacts
