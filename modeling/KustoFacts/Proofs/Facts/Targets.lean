import KustoFacts.Proofs.Facts.Shown
import KustoFacts.Proofs.Facts.Tables

/-!
    Targets of joins. The right side of a join or lookup and the operands of a union stand where
    only a table can, and so does a name in parentheses there. In a text that declares nothing,
    every target of a join is therefore a table of the text, unless it is the placeholder for what
    has no name. -/

namespace KustoFacts
namespace Node

variable {text name : Bytes} {catalog : TableNames} {n root : Node}

/-! ### Texts that declare nothing -/

/-- A tree without `let` statements and parameters declares nothing. -/
theorem undeclared_of_kinds
    (h : ∀ m ∈ root.preorder, m.kind ≠ .letStatement ∧ m.kind ≠ .parameter) (name : Bytes) :
    root.Undeclared name := by
  intro hname
  obtain ⟨m, hm, hdeclared⟩ := List.mem_filterMap.1 hname
  obtain ⟨hlet, hparameter⟩ := h m hm
  rw [kind] at hlet hparameter
  cases hform : m.form with
  | letStatement other => exact hlet (by rw [hform]; rfl)
  | parameter other type tabular => exact hparameter (by rw [hform]; rfl)
  | _ =>
    rw [hform] at hdeclared
    cases hdeclared

/-! ### Targets -/

/-- A target is the placeholder, or the name on the right side, plain or in parentheses. -/
theorem mem_joinTargets {right : Option Node} (h : name ∈ joinTargets right) :
    name = unnamedTarget ∨ ∃ c, right = some c ∧ (c.refName? = some name ∨
      c.form = .parenthesized ∧ ∃ inner ∈ c.children, inner.refName? = some name) := by
  unfold joinTargets at h
  dsimp only at h
  split at h
  next b bs hname =>
    obtain rfl := List.mem_singleton.1 h
    refine .inr ?_
    split at hname
    next role span first inner =>
      exact ⟨_, rfl, .inr ⟨rfl, inner, List.mem_cons_self, hname⟩⟩
    next c _ => exact ⟨c, rfl, .inl hname⟩
    next => cases hname
  next => exact .inl (List.mem_singleton.1 h)

/-- A reference in the place of a table is one to a table. -/
theorem AsTable.table? {c : Node} (h : c.AsTable catalog name) (hname : c.refName? = some name) :
    c.table? = some name := by
  rw [refName?] at hname
  cases hform : c.form with
  | nameReference other symbol =>
    rw [hform] at hname
    cases hname
    rw [Node.table?, hform, h.toTable symbol hform]
  | _ =>
    rw [hform] at hname
    cases hname

variable {normalize : Bool} {label : Bytes} {targets : List Bytes}

/-- A reference to a table, anywhere in a tree. -/
theorem mem_tables {c : Node} (hc : c ∈ root.preorder) (h : c.table? = some name) :
    name ∈ root.tables := List.mem_filterMap.2 ⟨c, hc, h⟩

/-- What stands on the right side of a join is a table, if it is a name. -/
theorem target_mem_tables (h : root.WellFormed text) (hn : n ∈ root.preorder)
    (hplaces : ∀ c ∈ n.children, n.form.expectsTable c.role = true → c.AsTable catalog name)
    (hexpects : n.form.expectsTable .right = true) (hname : name ∈ joinTargets (n.child? .right)) :
    name = unnamedTarget ∨ name ∈ root.tables := by
  refine (mem_joinTargets hname).imp_right ?_
  rintro ⟨c, hchild, hname⟩
  rw [child?] at hchild
  have hc : c ∈ n.children := List.mem_of_find?_eq_some hchild
  have hrole : c.role = .right := by simpa using List.find?_some hchild
  have hmem : c ∈ root.preorder := h.mem_preorder_of_child n hn c hc
  have hplace : c.AsTable catalog name := hplaces c hc (hrole ▸ hexpects)
  -- the name stands in the place itself, or in parentheses there
  rcases hname with hname | ⟨hform, inner, hinner, hname⟩
  · exact mem_tables hmem (hplace.table? hname)
  · exact mem_tables (h.mem_preorder_of_child c hmem inner hinner)
      ((hplace.inParens hform inner hinner).table? hname)

/-- Every target that a node shows is a table, if it was resolved as one. -/
theorem Shows.target_mem_tables (h : root.WellFormed text) (hn : n ∈ root.preorder)
    (hplaces : ∀ c ∈ n.children, n.form.expectsTable c.role = true → c.AsTable catalog name)
    (hshows : n.Shows normalize (.join label targets)) (hname : name ∈ targets) :
    name = unnamedTarget ∨ name ∈ root.tables := by
  cases hshows with
  | join role form =>
    exact Node.target_mem_tables h hn hplaces (by rw [form]; rfl) hname
  | lookup role form =>
    exact Node.target_mem_tables h hn hplaces (by rw [form]; rfl) hname
  | union role form =>
    obtain ⟨c, hc, hname⟩ := List.mem_filterMap.1 hname
    obtain ⟨hc, hrole⟩ := List.mem_filter.1 hc
    have hexpects : n.form.expectsTable c.role = true := by
      rw [form, of_decide_eq_true hrole]
      rfl
    have htable : c.table? = some name := (hplaces c hc hexpects).table? hname
    exact .inr (mem_tables (h.mem_preorder_of_child n hn c hc) htable)

end Node

/-- In a text without faults that has no `let` statement and no parameter, every target of a join,
    lookup or union is a table of the text, or the placeholder for a target without a name. -/
theorem targets_are_tables (options : ExtractOptions) (id text : Bytes) (p : Parsed)
    (hparse : parse options.catalog text = .ok p) (hclean : p.diagnostics = [])
    (hnone : ∀ n ∈ p.root.preorder, n.kind ≠ .letStatement ∧ n.kind ≠ .parameter) :
    ∃ facts, (extract options id text).outcome = .ok facts ∧
      ∀ kind set, facts.joins.get? kind = some set → ∀ name ∈ set.items,
        name = bytes "(...)" ∨ name ∈ facts.tables.items := by
  refine ⟨_, outcome_parsed hparse hclean, fun kind set hset name hname => ?_⟩
  have hwell := wellFormed_parse hparse
  obtain ⟨-, hmem⟩ := Facts.get?_joins_ofFindings hset
  obtain ⟨hne, targets, hfound, htarget⟩ := (hmem name).1 hname
  obtain ⟨n, hnode, hshows, -⟩ := exists_shows_parse hparse hfound
  have hreached : p.root.Reaches n := hwell.reaches (fun m hm => (hnone m hm).2) n hnode
  have hplaces := asTable_parse hparse (Node.undeclared_of_kinds hnone name) n hreached
  refine (hshows.target_mem_tables hwell hnode hplaces htarget).imp_right fun htable => ?_
  rw [Facts.mem_tables_ofFindings, Node.table_mem_findings_iff]
  exact ⟨hne, htable⟩

/-- The right side of a join in parentheses. -/
theorem targets_are_tables_parens :
    ∃ p facts set, parse .empty (bytes "T|join (U) on k") = .ok p ∧ p.diagnostics = [] ∧
      (∀ n ∈ p.root.preorder, n.kind ≠ .letStatement ∧ n.kind ≠ .parameter) ∧
      (extract ⟨.empty, true⟩ (bytes "q") (bytes "T|join (U) on k")).outcome = .ok facts ∧
      facts.joins.get? (bytes "inner") = some set ∧ set.items = [bytes "U"] ∧
      bytes "U" ∈ facts.tables.items := by
  have hview : (cleanRoot? .empty (bytes "T|join (U) on k")).map (fun root =>
      root.preorder.all fun n => n.kind ≠ .letStatement ∧ n.kind ≠ .parameter) = some true := by
    decide +kernel
  have hjoins : (extract ⟨.empty, true⟩ (bytes "q") (bytes "T|join (U) on k")).outcome.toOption.map
      (fun facts => (facts.joins.get? (bytes "inner")).map NameSet.items) =
        some (some [bytes "U"]) := by
    rw [toOption_outcome]
    decide +kernel
  obtain ⟨p, hparse, hclean, hkinds⟩ := parse_of_clean hview
  have hnone : ∀ n ∈ p.root.preorder, n.kind ≠ .letStatement ∧ n.kind ≠ .parameter :=
    fun n hn => of_decide_eq_true (List.all_eq_true.1 hkinds n hn)
  obtain ⟨facts, houtcome, htables⟩ :=
    targets_are_tables ⟨.empty, true⟩ (bytes "q") _ p hparse hclean hnone
  obtain ⟨other, hother, hjoins⟩ := ok_of_map hjoins
  rw [houtcome] at hother
  cases hother
  obtain ⟨set, hset, hitems⟩ := Option.map_eq_some_iff.1 hjoins
  have htable : bytes "U" = bytes "(...)" ∨ bytes "U" ∈ facts.tables.items :=
    htables _ set hset _ (hitems ▸ List.mem_cons_self)
  exact ⟨p, facts, set, hparse, hclean, hnone, houtcome, hset, hitems,
    htable.resolve_left (by decide)⟩

end KustoFacts
