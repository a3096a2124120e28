import KustoFacts.Proofs.Facts.Tables
import KustoFacts.Proofs.Query.Bindings
import Mathlib.Data.List.Basic

/-!
    Larger catalogs. A catalog only counts for names that are declared nowhere and do not stand
    where a table is expected; a larger one makes tables of more of them and changes nothing else.
    The texts that have facts are the same, and so are their calls, operators and joins, which can
    be read off the tree before names are resolved. -/

namespace KustoFacts

/-- Every table of a catalog is known to another one. -/
def TableNames.Within (catalog larger : TableNames) : Prop :=
  ∀ name, catalog.has name = true → larger.has name = true

/-- Names that are found with a catalog and with a larger one: none of them is lost, and whatever is
    new is known to the larger catalog alone. -/
structure TableNames.Widens (catalog larger : TableNames) (few many : List Bytes) : Prop where
  kept : ∀ name ∈ few, name ∈ many
  added : ∀ name ∈ many, name ∈ few ∨ larger.has name = true ∧ catalog.has name = false

namespace TableNames.Widens

variable {catalog larger : TableNames} {few many few' many' : List Bytes}

theorem refl (names : List Bytes) : catalog.Widens larger names names :=
  ⟨fun _ hname => hname, fun _ hname => .inl hname⟩

theorem append (h : catalog.Widens larger few many) (h' : catalog.Widens larger few' many') :
    catalog.Widens larger (few ++ few') (many ++ many') where
  kept name hname := by
    rcases List.mem_append.1 hname with hname | hname
    · exact List.mem_append_left _ (h.kept name hname)
    · exact List.mem_append_right _ (h'.kept name hname)
  added name hname := by
    rcases List.mem_append.1 hname with hname | hname
    · exact (h.added name hname).imp_left (List.mem_append_left _)
    · exact (h'.added name hname).imp_left (List.mem_append_right _)

end TableNames.Widens

namespace Node

variable {text : Bytes} {catalog larger : TableNames}

/-! ### Tables -/

/-- What stands in a node does not lose tables if neither the node nor its children do. -/
theorem widens_mk {role : Role} {form form' : Form} {span : Span} {first : Token}
    {ns ms : List Node}
    (hhere : catalog.Widens larger (mk role form span first ns).table?.toList
      (mk role form' span first ms).table?.toList)
    (hbelow : catalog.Widens larger (ns.flatMap tables) (ms.flatMap tables)) :
    catalog.Widens larger (mk role form span first ns).tables
      (mk role form' span first ms).tables := by
  rw [tables_mk, tables_mk]
  exact hhere.append hbelow

/-- A reference that is one to a table with a catalog is one with a larger catalog. -/
theorem widens_resolveName (h : catalog.Within larger) (scopes : Scopes) (tabular : Bool)
    (name : Bytes) (role : Role) (span : Span) (first : Token) (children : List Node) :
    catalog.Widens larger
      (mk role (.nameReference name (resolveName catalog scopes tabular name)) span first
        children).table?.toList
      (mk role (.nameReference name (resolveName larger scopes tabular name)) span first
        children).table?.toList := by
  have hlarger := h name
  unfold resolveName
  cases scopes.find? name with
  | some binding => exact .refl _
  | none =>
    cases hhas : catalog.has name with
    | true => simp only [hlarger hhas]; exact .refl _
    | false =>
      cases hhas' : larger.has name with
      | false => exact .refl _
      | true =>
        -- known to the larger catalog alone, which is news only where a value is expected
        cases tabular with
        | true => exact .refl _
        | false =>
          refine ⟨nofun, fun found hfound => .inr ?_⟩
          obtain rfl := List.mem_singleton.1 hfound
          exact ⟨hhas', hhas⟩

mutual

/-- A larger catalog does not lose tables. -/
theorem widens_resolve (h : catalog.Within larger) (scopes : Scopes) (stance : Stance) :
    ∀ n : Node, n.WellFormed text → catalog.Widens larger
      (n.resolve catalog scopes stance).tables (n.resolve larger scopes stance).tables
  | .mk role form span first children, hn => by
    cases form with
    | nameReference name symbol =>
      cases stance with
      | member tabular => simp only [resolve]; exact .refl _
      | _ => simp only [resolve]; exact widens_mk (widens_resolveName h ..) (.refl _)
    | namedParameter name => simp only [resolve]; exact .refl _
    | parameter name type tabular => simp only [resolve]; exact .refl _
    | query =>
      simp only [resolve]
      exact widens_mk (.refl _) (widens_resolveStatements h scopes.push children hn.children)
    | functionDeclaration view tabular =>
      simp only [resolve]
      exact widens_mk (.refl _) (widens_resolveFunction h _ children hn.children)
    | _ =>
      simp only [resolve]
      exact widens_mk (.refl _) (widens_resolveChildren h scopes _ stance 0 children hn.children)

theorem widens_resolveChildren (h : catalog.Within larger) (scopes : Scopes) (form : Form)
    (stance : Stance) (index : Nat) :
    ∀ ns : List Node, (∀ n ∈ ns, n.WellFormed text) → catalog.Widens larger
      ((resolveChildren catalog scopes form stance index ns).flatMap tables)
      ((resolveChildren larger scopes form stance index ns).flatMap tables)
  | [], _ => by simp only [resolveChildren]; exact .refl _
  | n :: ns, hns => by
    obtain ⟨hn, hns⟩ := List.forall_mem_cons.1 hns
    simp only [resolveChildren, List.flatMap_cons]
    exact (widens_resolve h scopes _ n hn).append
      (widens_resolveChildren h scopes form stance (index + 1) ns hns)

theorem widens_resolveFunction (h : catalog.Within larger) (scopes : Scopes) :
    ∀ ns : List Node, (∀ n ∈ ns, n.WellFormed text) → catalog.Widens larger
      ((resolveFunction catalog scopes ns).2.flatMap tables)
      ((resolveFunction larger scopes ns).2.flatMap tables)
  | [], _ => by simp only [resolveFunction]; exact .refl _
  | .mk role form span first children :: ns, hns => by
    obtain ⟨hn, hns⟩ := List.forall_mem_cons.1 hns
    have hrest := widens_resolveFunction h scopes ns hns
    cases form with
    | query =>
      simp only [resolveFunction, List.flatMap_cons]
      refine .append (widens_mk ?_ ?_) hrest
      · exact .refl _
      · exact widens_resolveStatements h scopes children hn.children
    | _ =>
      simp only [resolveFunction, List.flatMap_cons]
      refine .append (widens_mk ?_ ?_) hrest
      · exact .refl _
      · exact widens_resolveChildren h scopes _ .scalar 0 children hn.children

theorem widens_resolveStatements (h : catalog.Within larger) (scopes : Scopes) :
    ∀ ns : List Node, (∀ n ∈ ns, n.WellFormed text) → catalog.Widens larger
      ((resolveStatements catalog scopes ns).2.flatMap tables)
      ((resolveStatements larger scopes ns).2.flatMap tables)
  | [], _ => by simp only [resolveStatements]; exact .refl _
  | .mk role form span first children :: ns, hns => by
    obtain ⟨hn, hns⟩ := List.forall_mem_cons.1 hns
    -- both go on with the same scopes
    have hlet := declareLet_agree catalog larger hn (declareParams scopes children)
    simp only [resolveStatements, List.flatMap_cons, hlet]
    refine .append (widens_mk ?_ ?_) ?_
    · exact .refl _
    · exact widens_resolveChildren h _ form .scalar 0 children hn.children
    · exact widens_resolveStatements h _ ns hns

end

/-! ### What else is found -/

theorem keeps_bare : Keeps bare where
  role := role_bare
  name n := by
    rw [refName?, refName?, form_bare]
    cases n.form <;> rfl
  parens n := by
    rw [form_bare]
    cases n.form <;> simp [Form.bare]
  word n := by rw [first_bare]
  children := children_bare

mutual

theorem preorder_bare : ∀ n : Node, n.bare.preorder = n.preorder.map bare
  | .mk role form span first children => by
    rw [bare_mk, preorder_mk, preorder_mk, List.map_cons, bare_mk, flatMap_preorder_bare children]

theorem flatMap_preorder_bare : ∀ ns : List Node,
    (ns.map bare).flatMap preorder = (ns.flatMap preorder).map bare
  | [] => rfl
  | n :: ns => by
    rw [List.map_cons, List.flatMap_cons, List.flatMap_cons, List.map_append, preorder_bare n,
      flatMap_preorder_bare ns]

end

variable {α : Type} {normalize : Bool} {sort : Finding → Option α}

/-- Without symbols a node shows the same, unless it shows a table. -/
theorem shows_bare (hsort : ∀ name, sort (.table name) = none) (n : Node) :
    (n.bare.shows normalize).bind sort = (n.shows normalize).bind sort := by
  unfold shows finding operatorFinding
  rw [keeps_bare.child?, keeps_bare.operands, keeps_bare.word, keeps_bare.joinTargets, form_bare,
    role_bare]
  cases n.form with
  | nameReference name symbol => cases symbol <;> simp [Form.bare, hsort]
  | stub kind fault =>
    by_cases hrole : n.role = .operator
    · simp only [if_pos hrole]
      cases kind <;> rfl
    · simp only [if_neg hrole]
      cases kind <;> rfl
  | _ => rfl

/-- What two trees show does not differ but in tables, if their symbols alone differ. -/
theorem filterMap_findings_of_bare (hsort : ∀ name, sort (.table name) = none) {n m : Node}
    (h : n.bare = m.bare) :
    (n.findings normalize).filterMap sort = (m.findings normalize).filterMap sort := by
  have hbare (n : Node) :
      (n.bare.findings normalize).filterMap sort = (n.findings normalize).filterMap sort := by
    simp only [findings, preorder_bare, List.filterMap_map, List.filterMap_filterMap,
      Function.comp_def, shows_bare hsort]
  rw [← hbare n, h, hbare m]

/-- Trees that differ in symbols alone have the same facts, but for tables. -/
theorem facts_of_bare {n m : Node} (h : n.bare = m.bare) (id : Bytes) :
    (Facts.ofFindings id (n.findings normalize)).functionCalls =
        (Facts.ofFindings id (m.findings normalize)).functionCalls ∧
      (Facts.ofFindings id (n.findings normalize)).operators =
        (Facts.ofFindings id (m.findings normalize)).operators ∧
      (Facts.ofFindings id (n.findings normalize)).joins =
        (Facts.ofFindings id (m.findings normalize)).joins := by
  simp only [Facts.ofFindings_eq]
  refine ⟨congrArg NameSet.ofList ?_, congrArg NameSet.ofList ?_, congrArg Joins.ofList ?_⟩ <;>
    exact filterMap_findings_of_bare (fun _ => rfl) h

end Node

/-! ### Whole texts -/

/-- A text is parsed with one catalog exactly as with another, but for the symbols in its tree. -/
theorem parse_agree (catalog other : TableNames) (text : Bytes) :
    (∃ o, parse catalog text = .error o ∧ parse other text = .error o) ∨
      ∃ p p', parse catalog text = .ok p ∧ parse other text = .ok p' ∧
        p'.diagnostics = p.diagnostics ∧ p'.root.bare = p.root.bare ∧
        (catalog.Within other → catalog.Widens other p.root.tables p'.root.tables) := by
  rcases hread : tokenize (Parsed.withoutMark text) with o | read
  · exact .inl ⟨o, by rw [parse, hread]; rfl, by rw [parse, hread]; rfl⟩
  · refine .inr ⟨.ofTokens catalog (Parsed.withoutMark text) read,
      .ofTokens other (Parsed.withoutMark text) read, by rw [parse, hread]; rfl,
      by rw [parse, hread]; rfl, rfl, ?_, ?_⟩
    · exact (Node.bare_resolve ..).trans (Node.bare_resolve ..).symm
    · exact fun h => Node.widens_resolve h .top .scalar _ (is_parseTokens hread).1

/-- A text that has no facts with a catalog has none with a larger one, for the same reason. A text
    that has facts keeps them all with the larger catalog, and whatever is new in them is a table
    that this catalog knows and the other one does not. -/
theorem facts_of_larger_catalog (catalog larger : TableNames) (normalize : Bool) (id text : Bytes)
    (h : ∀ name, catalog.has name = true → larger.has name = true) :
    (∃ e, (extract ⟨catalog, normalize⟩ id text).outcome = .error e ∧
      (extract ⟨larger, normalize⟩ id text).outcome = .error e) ∨
    ∃ facts more, (extract ⟨catalog, normalize⟩ id text).outcome = .ok facts ∧
      (extract ⟨larger, normalize⟩ id text).outcome = .ok more ∧
      more.functionCalls = facts.functionCalls ∧ more.operators = facts.operators ∧
      more.joins = facts.joins ∧
      (∀ name ∈ facts.tables.items, name ∈ more.tables.items) ∧
      ∀ name ∈ more.tables.items,
        name ∈ facts.tables.items ∨ larger.has name = true ∧ catalog.has name = false := by
  rcases parse_agree catalog larger text with
    ⟨o, hparse, hparse'⟩ | ⟨p, p', hparse, hparse', hdiagnostics, hbare, hwidens⟩
  · exact .inl ⟨_, by rw [extract, hparse], by rw [extract, hparse']⟩
  by_cases hclean : p.diagnostics = []
  · have hout : (extract ⟨catalog, normalize⟩ id text).outcome = _ := outcome_parsed hparse hclean
    have hout' : (extract ⟨larger, normalize⟩ id text).outcome = _ :=
      outcome_parsed hparse' (hdiagnostics.trans hclean)
    have hroot : (p'.root.inSlot .none).bare = (p.root.inSlot .none).bare := by
      rw [Node.bare_inSlot, Node.bare_inSlot, hbare]
    obtain ⟨hcalls, hoperators, hjoins⟩ := Node.facts_of_bare hroot id
    obtain ⟨kept, added⟩ := hwidens h
    refine .inr ⟨_, _, hout, hout', hcalls, hoperators, hjoins, fun name hname => ?_,
      fun name hname => ?_⟩
    · rw [Facts.mem_tables_ofFindings, Node.table_mem_findings_iff] at hname ⊢
      exact ⟨hname.1, kept name hname.2⟩
    · rw [Facts.mem_tables_ofFindings, Node.table_mem_findings_iff] at hname ⊢
      exact (added name hname.2).imp_left fun hfew => ⟨hname.1, hfew⟩
  · have hfaulty : p'.diagnostics ≠ [] := by rwa [hdiagnostics]
    refine .inl ⟨_, outcome_refused hparse hclean, ?_⟩
    rw [← hdiagnostics]
    exact outcome_refused hparse' hfaulty

/-- A name where a value is expected, after a declaration whose value is a name in parentheses. -/
theorem facts_of_larger_catalog_value :
    TableNames.empty.Within (.ofList [bytes "z"]) ∧
      ∃ facts more, (extract ⟨.empty, true⟩ (bytes "q") (bytes "let y=(x);y|where z")).outcome =
          .ok facts ∧
        (extract ⟨.ofList [bytes "z"], true⟩ (bytes "q") (bytes "let y=(x);y|where z")).outcome =
          .ok more ∧
        facts.tables.items = [bytes "x", bytes "y"] ∧ more.operators = facts.operators ∧
        (∀ name ∈ facts.tables.items, name ∈ more.tables.items) ∧
        bytes "z" ∈ more.tables.items := by
  have hview : (extract ⟨.empty, true⟩ (bytes "q")
      (bytes "let y=(x);y|where z")).outcome.toOption.map (·.tables.items) =
        some [bytes "x", bytes "y"] := by
    rw [toOption_outcome]
    decide +kernel
  have hview' : (extract ⟨.ofList [bytes "z"], true⟩ (bytes "q")
      (bytes "let y=(x);y|where z")).outcome.toOption.map (·.tables.has (bytes "z")) =
        some true := by
    rw [toOption_outcome]
    decide +kernel
  obtain ⟨facts, hout, htables⟩ := ok_of_map hview
  obtain ⟨more, hout', hz⟩ := ok_of_map hview'
  have hwithin : TableNames.empty.Within (.ofList [bytes "z"]) := by
    intro name hname
    cases hname
  rcases facts_of_larger_catalog _ _ true (bytes "q") (bytes "let y=(x);y|where z") hwithin with
    ⟨e, herror, -⟩ | ⟨few, many, hfew, hmany, -, hoperators, -, hkept, -⟩
  · rw [hout] at herror
    cases herror
  · rw [hout] at hfew
    rw [hout'] at hmany
    cases hfew
    cases hmany
    have hmem : bytes "z" ∈ more.tables.items := List.contains_iff_mem.1 hz
    exact ⟨hwithin, facts, more, hout, hout', htables, hoperators, hkept, hmem⟩

end KustoFacts
