import KustoFacts.Proofs.Facts.Outcome
import KustoFacts.Proofs.Facts.Parts
import KustoFacts.Proofs.Query.TablePlaces
import Mathlib.Data.List.Basic

/-!
    Tables that are found. Whatever stands where only a table can, and is not declared in the text,
    is among the tables of the text. The parameters of a directive are left out: their defaults are
    read, but not resolved, and a table in them is not found. -/

namespace KustoFacts

namespace Node

/-- The table that a node refers to. -/
def table? (n : Node) : Option Bytes :=
  match n.form with
  | .nameReference name .table => some name
  | _ => none

/-- The tables that the nodes of a tree refer to. -/
def tables (root : Node) : List Bytes := root.preorder.filterMap table?

/-- All nodes in places where a table is expected. -/
def tablePlaces (root : Node) : List Node :=
  root.preorder.flatMap fun parent =>
    parent.children.filter fun c => parent.form.expectsTable c.role

theorem tables_mk (role : Role) (form : Form) (span : Span) (first : Token)
    (children : List Node) : (mk role form span first children).tables =
      (mk role form span first children).table?.toList ++ children.flatMap tables := by
  have below : children.flatMap tables = (children.flatMap preorder).filterMap table? := by
    rw [List.filterMap_flatMap]
    rfl
  rw [tables, preorder_mk, List.filterMap_cons, below]
  cases (mk role form span first children).table? <;> rfl

theorem shows_table_iff (normalize : Bool) (n : Node) (name : Bytes) :
    n.shows normalize = some (.table name) ↔ n.table? = some name := by
  rcases n with ⟨role, form, span, first, children⟩
  cases form with
  | nameReference other symbol => cases symbol <;> simp [shows, finding, table?, Node.form]
  | stub kind fault =>
    by_cases hrole : role = .operator <;> cases kind <;>
      simp [shows, finding, operatorFinding, table?, Node.form, Node.role, Except.map, hrole]
  | _ =>
    by_cases hrole : role = .operator <;>
      simp [shows, finding, operatorFinding, table?, Node.form, Node.role, Except.map, hrole]

/-- A tree shows the tables that it refers to. -/
theorem table_mem_findings_iff (normalize : Bool) (r : Role) (root : Node) (name : Bytes) :
    .table name ∈ (root.inSlot r).findings normalize ↔ name ∈ root.tables := by
  have hroot : (root.inSlot r).table? = root.table? := by
    cases root
    rfl
  have hchildren : (root.inSlot r).children = root.children := by
    cases root
    rfl
  rw [findings, tables, List.mem_filterMap, List.mem_filterMap, preorder_eq, preorder_eq root]
  simp only [shows_table_iff, List.exists_mem_cons_iff, hroot, hchildren]

end Node

/-- In a text without faults, a reference where a table is expected is one to a table, and its name
    is among the tables of the text, if no `let` statement or parameter declares that name anywhere
    and the place is not in the parameters of a directive. -/
theorem tables_of_places (options : ExtractOptions) (id text : Bytes) (p : Parsed)
    (hparse : parse options.catalog text = .ok p) (hclean : p.diagnostics = []) :
    ∃ facts, (extract options id text).outcome = .ok facts ∧
      ∀ name, p.root.Undeclared name → ∀ parent, p.root.Reaches parent → ∀ c ∈ parent.children,
        parent.form.expectsTable c.role = true → ∀ symbol, c.form = .nameReference name symbol →
          symbol = .table ∧ (name ≠ [] → name ∈ facts.tables.items) := by
  refine ⟨_, outcome_parsed hparse hclean, ?_⟩
  intro name hundeclared parent hreaches c hc hexpects symbol hform
  have hsymbol : symbol = .table :=
    typed_parse hparse hundeclared parent hreaches c hc hexpects symbol hform
  subst hsymbol
  refine ⟨rfl, fun hname => ?_⟩
  have hmem : c ∈ p.root.preorder := by
    rw [Node.preorder_eq]
    exact List.mem_cons_of_mem _ (hreaches.mem_below c hc)
  have htable : c.table? = some name := by rw [Node.table?, hform]
  rw [Facts.mem_tables_ofFindings, Node.table_mem_findings_iff]
  exact ⟨hname, List.mem_filterMap.2 ⟨c, hmem, htable⟩⟩

/-- The right side of a join. -/
theorem tables_of_places_join :
    ∃ p facts, parse .empty (bytes "T|join U on k") = .ok p ∧ p.diagnostics = [] ∧
      p.root.Undeclared (bytes "U") ∧
      (extract ⟨.empty, true⟩ (bytes "q") (bytes "T|join U on k")).outcome = .ok facts ∧
      bytes "U" ∈ facts.tables.items := by
  have hview : (cleanRoot? .empty (bytes "T|join U on k")).map (fun root =>
      (root.declared, root.preorder.all (·.kind ≠ .parameter), root.tablePlaces.map Node.form)) =
        some ([], true, [.nameReference (bytes "T") .table, .nameReference (bytes "U") .table]) := by
    decide +kernel
  obtain ⟨p, hparse, hclean, hview⟩ := parse_of_clean hview
  simp only [Prod.mk.injEq] at hview
  obtain ⟨hdeclared, hkinds, hplaces⟩ := hview
  have hundeclared : p.root.Undeclared (bytes "U") := by
    rw [Node.Undeclared, hdeclared]
    exact List.not_mem_nil
  obtain ⟨c, hc, hform⟩ : ∃ c ∈ p.root.tablePlaces, c.form = .nameReference (bytes "U") .table :=
    List.mem_map.1 (hplaces ▸ List.mem_cons_of_mem _ List.mem_cons_self)
  obtain ⟨parent, hparent, hc⟩ := List.mem_flatMap.1 hc
  obtain ⟨hc, hexpects⟩ := List.mem_filter.1 hc
  have hreaches : p.root.Reaches parent := by
    refine (wellFormed_parse hparse).reaches (fun m hm => ?_) parent hparent
    exact of_decide_eq_true (List.all_eq_true.1 hkinds m hm)
  obtain ⟨facts, houtcome, htables⟩ :=
    tables_of_places ⟨.empty, true⟩ (bytes "q") _ p hparse hclean
  have htable := htables _ hundeclared parent hreaches c hc hexpects .table hform
  exact ⟨p, facts, hparse, hclean, hundeclared, houtcome, htable.2 (by decide)⟩

/-- The head of a pipeline in the default of a directive's parameter is declared nowhere, and yet
    it is not among the tables. -/
theorem directive_default_not_table :
    ∃ p facts,
      parse .empty (bytes "declare query_parameters(x:long = toscalar(T | count)); print x") =
        .ok p ∧ p.diagnostics = [] ∧ p.root.Undeclared (bytes "T") ∧
      (∃ c ∈ p.root.tablePlaces, c.form = .nameReference (bytes "T") .unknown) ∧
      (extract ⟨.empty, true⟩ (bytes "q1")
        (bytes "declare query_parameters(x:long = toscalar(T | count)); print x")).outcome =
          .ok facts ∧
      bytes "T" ∉ facts.tables.items := by
  have hview : (cleanRoot? .empty
      (bytes "declare query_parameters(x:long = toscalar(T | count)); print x")).map
        (fun root => (root.declared, root.tables, root.tablePlaces.map Node.form)) =
          some ([bytes "x"], [], [.nameReference (bytes "T") .unknown]) := by decide +kernel
  obtain ⟨p, hparse, hclean, hview⟩ := parse_of_clean hview
  simp only [Prod.mk.injEq] at hview
  obtain ⟨hdeclared, htables, hplaces⟩ := hview
  refine ⟨p, _, hparse, hclean, ?_, ?_, outcome_parsed hparse hclean, ?_⟩
  · rw [Node.Undeclared, hdeclared]
    decide
  · exact List.mem_map.1 (hplaces ▸ List.mem_cons_self)
  · rw [Facts.mem_tables_ofFindings, Node.table_mem_findings_iff, htables]
    exact fun h => List.not_mem_nil h.2

end KustoFacts
