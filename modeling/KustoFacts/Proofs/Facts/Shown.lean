import KustoFacts.Proofs.Facts.Outcome
import KustoFacts.Proofs.Facts.Parts

/-!
    What single nodes show. A call shows its function and a reference to a table the table; in the
    place of an operator, a join and a lookup show what stands on their right side, and every other
    node the word that it begins with; elsewhere, a union shows its operands. The root of a tree
    shows nothing, so that each finding comes from a child of some node. -/

namespace KustoFacts
namespace Node

variable {text : Bytes} {normalize : Bool} {n root : Node} {f : Finding}

/-- What a node may show, by its slot and form. -/
inductive Shows (normalize : Bool) (n : Node) : Finding → Prop where
  | call {name : Bytes} (form : n.form = .functionCall name) : Shows normalize n (.call name)
  | table {name : Bytes} (form : n.form = .nameReference name .table) :
      Shows normalize n (.table name)
  | operator (role : n.role = .operator) (join : n.kind ≠ .joinOperator)
      (lookup : n.kind ≠ .lookupOperator) : Shows normalize n (.operator n.first.text)
  | join {kind : Option Bytes} (role : n.role = .operator) (form : n.form = .join kind) :
      Shows normalize n (.join (joinLabel normalize kind) (joinTargets (n.child? .right)))
  | lookup {kind : Option Bytes} (role : n.role = .operator) (form : n.form = .lookup kind) :
      Shows normalize n (.join JoinKind.lookup (joinTargets (n.child? .right)))
  | union (role : n.role ≠ .operator) (form : n.form = .union) :
      Shows normalize n (.join JoinKind.union ((n.childrenAs .operand).filterMap refName?))

theorem shows_of_eq_some (h : n.shows normalize = some f) : n.Shows normalize f := by
  rcases n with ⟨role, form, span, first, children⟩
  by_cases hrole : role = .operator
  · subst hrole
    cases form with
    | functionCall name => cases h; exact .call rfl
    | nameReference name symbol => cases symbol <;> cases h; exact .table rfl
    | join kind => cases h; exact .join rfl rfl
    | lookup kind => cases h; exact .lookup rfl rfl
    | stub kind fault => cases kind <;> cases h <;> exact .operator rfl nofun nofun
    | _ => cases h; exact .operator rfl nofun nofun
  · cases form with
    | functionCall name => cases h; exact .call rfl
    | nameReference name symbol => cases symbol <;> cases h; exact .table rfl
    | union =>
      simp only [shows, finding, Node.form, Node.role, hrole, if_false] at h
      cases h
      exact .union hrole rfl
    | stub kind fault =>
      cases kind <;> simp [shows, finding, Node.form, Node.role, hrole] at h
    | _ => simp [shows, finding, Node.form, Node.role, hrole] at h

/-! ### Nodes and their parents -/

/-- The children of the nodes of a tree are nodes of the tree. -/
theorem WellFormed.mem_preorder_of_child (h : root.WellFormed text) :
    ∀ parent ∈ root.preorder, ∀ c ∈ parent.children, c ∈ root.preorder := by
  induction h with
  | mk ordered inside admits below ih =>
    intro parent hparent c hc
    rw [preorder_mk] at hparent ⊢
    refine List.mem_cons_of_mem _ (List.mem_flatMap.2 ?_)
    rcases List.mem_cons.1 hparent with rfl | hparent
    · exact ⟨c, hc, preorder_eq c ▸ List.mem_cons_self⟩
    · obtain ⟨d, hd, hparent⟩ := List.mem_flatMap.1 hparent
      exact ⟨d, hd, ih d hd parent hparent c hc⟩

/-- What stands below the root of a tree is a child of some node. -/
theorem WellFormed.exists_parent (h : root.WellFormed text) :
    ∀ m ∈ root.children.flatMap Node.preorder, ∃ parent ∈ root.preorder, m ∈ parent.children := by
  induction h with
  | mk ordered inside admits below ih =>
    intro m hm
    obtain ⟨c, hc, hm⟩ := List.mem_flatMap.1 hm
    rw [preorder_eq] at hm ⊢
    rcases List.mem_cons.1 hm with rfl | hm
    · exact ⟨_, List.mem_cons_self, hc⟩
    · obtain ⟨parent, hparent, hm⟩ := ih c hc m hm
      exact ⟨parent, List.mem_cons_of_mem _ (List.mem_flatMap.2 ⟨c, hc, hparent⟩), hm⟩

/-- Whatever a query shows, the child of some node shows. -/
theorem WellFormed.exists_shows (h : root.WellFormed text) (hquery : root.form = .query)
    (hf : f ∈ (root.inSlot .none).findings normalize) :
    ∃ n ∈ root.preorder, n.Shows normalize f ∧ ∃ parent ∈ root.preorder, n ∈ parent.children := by
  obtain ⟨n, hn, hshows⟩ := List.mem_filterMap.1 hf
  have hshows := shows_of_eq_some hshows
  rw [preorder_eq] at hn
  rcases List.mem_cons.1 hn with rfl | hn
  · -- the root is a query and fills no slot
    have hform : (root.inSlot .none).form = .query := by rw [form_inSlot, hquery]
    have hrole : (root.inSlot .none).role ≠ .operator := by cases root; nofun
    cases hshows with
    | operator role join lookup => exact absurd role hrole
    | call form | table form | join role form | lookup role form | union role form =>
      rw [hform] at form
      cases form
  · have hchildren : (root.inSlot .none).children = root.children := by cases root; rfl
    rw [hchildren] at hn
    obtain ⟨parent, hparent, hn⟩ := h.exists_parent n hn
    exact ⟨n, h.mem_preorder_of_child parent hparent n hn, hshows, parent, hparent, hn⟩

end Node

/-- Whatever is found in a text, the child of some node of its tree shows. -/
theorem exists_shows_parse {catalog : TableNames} {text : Bytes} {p : Parsed} {normalize : Bool}
    {f : Finding} (h : parse catalog text = .ok p)
    (hf : f ∈ (p.root.inSlot .none).findings normalize) :
    ∃ n ∈ p.root.preorder, n.Shows normalize f ∧
      ∃ parent ∈ p.root.preorder, n ∈ parent.children :=
  (wellFormed_parse h).exists_shows (form_parse h) hf

end KustoFacts
