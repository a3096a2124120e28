import KustoFacts.Proofs.Query.ParsedGrown

/-!
    What names are given. A name that a `let` statement declares gets the kind of its value, and the
    value stands where a table is expected: a name in it that is declared nowhere is a table,
    whether the catalog knows it or not. So no declaration depends on the catalog, and neither does
    anything that is looked up in a scope. -/

namespace KustoFacts
namespace Node

variable {text : Bytes} (catalog other : TableNames)

/-! ### Values -/

/-- Where a table is expected, the catalog does not count. -/
theorem resolveName_tabular (scopes : Scopes) (name : Bytes) :
    resolveName catalog scopes true name = resolveName other scopes true name := by
  simp only [resolveName, Bool.or_true]

/-- The kind that a value gives to a name does not depend on the catalog. -/
theorem valueSymbol_resolve (scopes around : Scopes) : ∀ n : Node, n.WellFormed text →
    (n.resolve catalog scopes .tabular).valueSymbol around =
      (n.resolve other scopes .tabular).valueSymbol around
  | .mk role form span first children, h => by
    have hadmits := h.admits
    cases form with
    | nameReference name symbol =>
      simp only [resolve, Stance.isTabular, resolveName_tabular catalog other]
    | parenthesized =>
      obtain ⟨p, -, hslots⟩ := hadmits
      obtain ⟨inner, rfl, -⟩ := List.map_eq_singleton_iff.1 hslots
      have hinner := valueSymbol_resolve scopes around inner (h.children inner List.mem_cons_self)
      simpa only [resolve, resolveChildren, childStance, Stance.isTabular, Stance.ofBool, if_true,
        valueSymbol] using hinner
    | path =>
      -- the name after the last dot is a table in both, and what stands before it is not asked for
      obtain ⟨source, rest, rfl, -, hrest⟩ := List.map_eq_cons_iff.1 hadmits
      obtain ⟨⟨role', form', span', first', children'⟩, rfl, hselector⟩ :=
        List.map_eq_singleton_iff.1 hrest
      obtain rfl : role' = .selector := congrArg Prod.fst hselector
      simp only [resolve, resolveChildren, childStance, Node.role, Stance.isTabular, if_true]
      cases form' <;> simp only [valueSymbol, if_true]
    | _ => simp only [resolve, valueSymbol]

/-! ### Single statements -/

/-- Whether a parameter takes a table. -/
def takesTable? (n : Node) : Option Bool :=
  match n.form with
  | .parameter _ _ tabular => some tabular
  | _ => none

theorem takesTable?_bare (n : Node) : n.bare.takesTable? = n.takesTable? := by
  rw [takesTable?, takesTable?, form_bare]
  cases n.form <;> rfl

/-- What a function gives its name is read off its parameters, which have no symbols. -/
theorem bindingOf_function {ns ms : List Node} (h : ns.map bare = ms.map bare) (around : Scopes)
    (role : Role) (view tabular : Bool) (span : Span) (first : Token) :
    bindingOf around (.mk role (.functionDeclaration view tabular) span first ns) =
      bindingOf around (.mk role (.functionDeclaration view tabular) span first ms) := by
  have hbare (ns : List Node) : (ns.map bare).filterMap takesTable? = ns.filterMap takesTable? := by
    simp only [List.filterMap_map, Function.comp_def, takesTable?_bare]
  have hparams : ns.filterMap takesTable? = ms.filterMap takesTable? := by
    rw [← hbare ns, h, hbare ms]
  exact congrArg (Binding.mk .function tabular) hparams

/-- A `let` statement declares its name the same way with every catalog, if its value does. -/
theorem declareLet_resolveChildren {scopes : Scopes} {form : Form} {children : List Node}
    (hadmits : form.Admits (children.map slot))
    (h : ∀ c ∈ children, bindingOf scopes (c.resolve catalog scopes .tabular) =
      bindingOf scopes (c.resolve other scopes .tabular)) :
    declareLet scopes form (resolveChildren catalog scopes form .scalar 0 children) =
      declareLet scopes form (resolveChildren other scopes form .scalar 0 children) := by
  cases form with
  | letStatement name =>
    obtain ⟨p, -, hslots⟩ := hadmits
    obtain ⟨declared, rest, rfl, hdeclared, hrest⟩ := List.map_eq_cons_iff.1 hslots
    obtain ⟨value, rfl, hvalue⟩ := List.map_eq_singleton_iff.1 hrest
    have hrole (catalog : TableNames) (scopes : Scopes) (stance : Stance) (n : Node) :
        (n.resolve catalog scopes stance).role = n.role :=
      congrArg Prod.fst (slot_resolve scopes stance n)
    have hname : declared.role = .name := congrArg Prod.fst hdeclared
    have hrole' : value.role = .value := congrArg Prod.fst hvalue
    have hsame := h value (List.mem_cons_of_mem _ List.mem_cons_self)
    simp [declareLet, resolveChildren, childStance, hrole, hname, hrole', Stance.ofBool, hsame]
  | _ => rfl

/-- Whether a last statement yields a table does not depend on the catalog. -/
theorem yieldsTable_resolveChildren {role : Role} {form : Form} {span : Span} {first : Token}
    {children : List Node} (h : (Node.mk role form span first children).WellFormed text)
    (scopes around : Scopes) :
    yieldsTable around [.mk role form span first
      (resolveChildren catalog scopes form .scalar 0 children)] =
    yieldsTable around [.mk role form span first
      (resolveChildren other scopes form .scalar 0 children)] := by
  cases form with
  | expressionStatement =>
    obtain ⟨p, -, hslots⟩ := h.admits
    obtain ⟨value, rfl, -⟩ := List.map_eq_singleton_iff.1 hslots
    have hvalue := valueSymbol_resolve catalog other scopes around value
      (h.children value List.mem_cons_self)
    simp only [yieldsTable, resolveChildren, childStance, List.getLast?_singleton, hvalue]
  | _ => rfl

/-- Only the last statement counts. -/
theorem yieldsTable_cons {around : Scopes} {n m : Node} {ns ms : List Node}
    (hfirst : yieldsTable around [n] = yieldsTable around [m]) (hempty : ns = [] ↔ ms = [])
    (hrest : yieldsTable around ns = yieldsTable around ms) :
    yieldsTable around (n :: ns) = yieldsTable around (m :: ms) := by
  cases ns with
  | nil =>
    obtain rfl := hempty.1 rfl
    exact hfirst
  | cons a ns =>
    obtain ⟨b, ms, rfl⟩ := List.exists_cons_of_ne_nil (mt hempty.2 (List.cons_ne_nil a ns))
    simpa only [yieldsTable, List.getLast?_cons_cons] using hrest

/-! ### All declarations -/

mutual

/-- What a value gives to a name does not depend on the catalog. -/
theorem bindingOf_resolve (scopes around : Scopes) : ∀ n : Node, n.WellFormed text →
    bindingOf around (n.resolve catalog scopes .tabular) =
      bindingOf around (n.resolve other scopes .tabular)
  | .mk role form span first children, h => by
    have hvalue := valueSymbol_resolve catalog other scopes around _ h
    cases form with
    | functionDeclaration view tabular =>
      have htabular := fst_resolveFunction (declareParams scopes.push children) children h.children
      simp only [resolve, htabular]
      refine bindingOf_function ?_ ..
      rw [bare_resolveFunction, bare_resolveFunction]
    | namedParameter name => simp only [resolve]
    | parameter name type tabular => simp only [resolve]
    | _ =>
      simp only [resolve] at hvalue ⊢
      exact congrArg Binding.plain hvalue

theorem bindingOf_resolveAll (scopes around : Scopes) : ∀ ns : List Node,
    (∀ n ∈ ns, n.WellFormed text) → ∀ n ∈ ns, bindingOf around (n.resolve catalog scopes .tabular) =
      bindingOf around (n.resolve other scopes .tabular)
  | [], _ => List.forall_mem_nil _
  | n :: ns, h => by
    obtain ⟨hn, hns⟩ := List.forall_mem_cons.1 h
    exact List.forall_mem_cons.2
      ⟨bindingOf_resolve scopes around n hn, bindingOf_resolveAll scopes around ns hns⟩

/-- Whether a function yields a table does not depend on the catalog. -/
theorem fst_resolveFunction (scopes : Scopes) : ∀ ns : List Node, (∀ n ∈ ns, n.WellFormed text) →
    (resolveFunction catalog scopes ns).1 = (resolveFunction other scopes ns).1
  | [], _ => by simp only [resolveFunction]
  | .mk role form span first children :: ns, h => by
    obtain ⟨hn, hns⟩ := List.forall_mem_cons.1 h
    have hrest := fst_resolveFunction scopes ns hns
    cases form with
    | query =>
      obtain ⟨hscopes, hyields⟩ := resolveStatements_agree scopes children hn.children
      simp only [resolveFunction, hscopes, hyields]
    | _ => simp only [resolveFunction, hrest]

/-- What statements declare does not depend on the catalog, nor whether the last one yields a
    table. -/
theorem resolveStatements_agree (scopes : Scopes) : ∀ ns : List Node,
    (∀ n ∈ ns, n.WellFormed text) →
      (resolveStatements catalog scopes ns).1 = (resolveStatements other scopes ns).1 ∧
      ∀ around, yieldsTable around (resolveStatements catalog scopes ns).2 =
        yieldsTable around (resolveStatements other scopes ns).2
  | [], _ => by simp only [resolveStatements, implies_true, and_self]
  | .mk role form span first children :: ns, h => by
    obtain ⟨hn, hns⟩ := List.forall_mem_cons.1 h
    have hlet : declareLet (declareParams scopes children) form
          (resolveChildren catalog (declareParams scopes children) form .scalar 0 children) =
        declareLet (declareParams scopes children) form
          (resolveChildren other (declareParams scopes children) form .scalar 0 children) :=
      declareLet_resolveChildren catalog other hn.admits
        (bindingOf_resolveAll _ (declareParams scopes children) children hn.children)
    have hempty (catalog : TableNames) (scopes : Scopes) :
        (resolveStatements catalog scopes ns).2 = [] ↔ ns = [] := by
      rw [← List.map_eq_nil_iff, map_form_resolveStatements, List.map_eq_nil_iff]
    -- the statements after this one are resolved in the same scopes
    simp only [resolveStatements, hlet]
    obtain ⟨hscopes, hyields⟩ := resolveStatements_agree _ ns hns
    refine ⟨hscopes, fun around => yieldsTable_cons ?_ ?_ (hyields around)⟩
    · exact yieldsTable_resolveChildren catalog other hn _ around
    · rw [hempty, hempty]

end

/-- What a statement declares does not depend on the catalog. -/
theorem declareLet_agree {role : Role} {form : Form} {span : Span} {first : Token}
    {children : List Node} (h : (Node.mk role form span first children).WellFormed text)
    (scopes : Scopes) :
    declareLet scopes form (resolveChildren catalog scopes form .scalar 0 children) =
      declareLet scopes form (resolveChildren other scopes form .scalar 0 children) :=
  declareLet_resolveChildren catalog other h.admits
    (bindingOf_resolveAll catalog other scopes scopes children h.children)

end Node
end KustoFacts
