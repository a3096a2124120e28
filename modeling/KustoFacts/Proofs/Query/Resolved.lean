import KustoFacts.Proofs.Query.Outline
import KustoFacts.Proofs.Query.Shape
import KustoFacts.Query.Symbols

/-!
    Resolved trees. Resolving fills in symbols and nothing else, so that every node keeps its slot
    and a well-formed tree stays well formed. What a name is resolved to does not depend on places,
    and a statement that declares nothing leaves the statements after it as they are. -/

namespace KustoFacts

/-- Whether a statement of a form declares a name for the statements after it. -/
def Form.declares : Form → Bool
  | .letStatement _ => true
  | .setStatement keyword _ => keyword = bytes "declare"
  | _ => false

namespace Node

variable {text : Bytes} {catalog : TableNames}

/-! ### What is kept -/

theorem slot_resolve (scopes : Scopes) (stance : Stance) (n : Node) :
    (n.resolve catalog scopes stance).slot = n.slot := by
  rcases n with ⟨role, form, span, first, children⟩
  cases form <;> simp only [resolve] <;> rfl

mutual

theorem wellFormed_resolve (scopes : Scopes) (stance : Stance) :
    ∀ n : Node, n.WellFormed text → (n.resolve catalog scopes stance).WellFormed text
  | .mk role form span first children, .mk ordered inside admits below => by
    cases form with
    | nameReference name symbol =>
      unfold resolve
      exact .mk ordered inside admits below
    | namedParameter name =>
      rw [resolve]
      exact .mk ordered inside admits below
    | parameter name type tabular =>
      rw [resolve]
      exact .mk ordered inside admits below
    | query =>
      rw [resolve]
      obtain ⟨slots, resolved⟩ := wellFormed_resolveStatements scopes.push children below
      exact .mk ordered inside (by rw [slots]; exact admits) resolved
    | functionDeclaration view tabular =>
      rw [resolve]
      obtain ⟨slots, resolved⟩ :=
        wellFormed_resolveFunction (declareParams scopes.push children) children below
      refine .mk ordered inside ?_ resolved
      rw [slots]
      exact admits
    | _ =>
      simp only [resolve]
      obtain ⟨slots, resolved⟩ := wellFormed_resolveChildren scopes _ stance 0 children below
      exact .mk ordered inside (by rw [slots]; exact admits) resolved

theorem wellFormed_resolveChildren (scopes : Scopes) (form : Form) (stance : Stance)
    (index : Nat) : ∀ ns : List Node, (∀ n ∈ ns, n.WellFormed text) →
      (resolveChildren catalog scopes form stance index ns).map slot = ns.map slot ∧
        ∀ n ∈ resolveChildren catalog scopes form stance index ns, n.WellFormed text
  | [], _ => by simp [resolveChildren]
  | n :: ns, h => by
    obtain ⟨hn, hns⟩ := List.forall_mem_cons.1 h
    obtain ⟨slots, resolved⟩ := wellFormed_resolveChildren scopes form stance (index + 1) ns hns
    rw [resolveChildren]
    refine ⟨by rw [List.map_cons, List.map_cons, slot_resolve, slots], ?_⟩
    exact List.forall_mem_cons.2 ⟨wellFormed_resolve scopes _ n hn, resolved⟩

theorem wellFormed_resolveFunction (scopes : Scopes) :
    ∀ ns : List Node, (∀ n ∈ ns, n.WellFormed text) →
      (resolveFunction catalog scopes ns).2.map slot = ns.map slot ∧
        ∀ n ∈ (resolveFunction catalog scopes ns).2, n.WellFormed text
  | [], _ => by simp [resolveFunction]
  | .mk role form span first children :: ns, h => by
    obtain ⟨hn, hns⟩ := List.forall_mem_cons.1 h
    obtain ⟨ordered, inside, admits, below⟩ := hn
    obtain ⟨slots, resolved⟩ := wellFormed_resolveFunction scopes ns hns
    cases form with
    | query =>
      obtain ⟨slots', resolved'⟩ := wellFormed_resolveStatements scopes children below
      rw [resolveFunction]
      refine ⟨by simp only [List.map_cons, slots]; rfl, List.forall_mem_cons.2 ⟨?_, resolved⟩⟩
      exact .mk ordered inside (by rw [slots']; exact admits) resolved'
    | _ =>
      obtain ⟨slots', resolved'⟩ := wellFormed_resolveChildren scopes _ .scalar 0 children below
      simp only [resolveFunction]
      refine ⟨by simp only [List.map_cons, slots]; rfl, List.forall_mem_cons.2 ⟨?_, resolved⟩⟩
      exact .mk ordered inside (by rw [slots']; exact admits) resolved'

theorem wellFormed_resolveStatements (scopes : Scopes) :
    ∀ ns : List Node, (∀ n ∈ ns, n.WellFormed text) →
      (resolveStatements catalog scopes ns).2.map slot = ns.map slot ∧
        ∀ n ∈ (resolveStatements catalog scopes ns).2, n.WellFormed text
  | [], _ => by simp [resolveStatements]
  | .mk role form span first children :: ns, h => by
    obtain ⟨hn, hns⟩ := List.forall_mem_cons.1 h
    obtain ⟨ordered, inside, admits, below⟩ := hn
    rw [resolveStatements]
    obtain ⟨slots', resolved'⟩ :=
      wellFormed_resolveChildren (declareParams scopes children) form .scalar 0 children below
    obtain ⟨slots, resolved⟩ := wellFormed_resolveStatements _ ns hns
    refine ⟨by simp only [List.map_cons, slots]; rfl, List.forall_mem_cons.2 ⟨?_, resolved⟩⟩
    exact .mk ordered inside (by rw [slots']; exact admits) resolved'

end

/-! ### Places do not count -/

@[simp] theorem kind_outline (n : Node) : n.outline.kind = n.kind := by
  rw [kind, kind, form_outline]

theorem childStance_outline (scopes : Scopes) (form : Form) (stance : Stance) (index : Nat)
    (n : Node) : childStance scopes form stance index n.outline =
      childStance scopes form stance index n := by
  cases form <;> simp only [childStance, role_outline, kind_outline]

theorem valueSymbol_outline (scopes : Scopes) (n : Node) :
    n.outline.valueSymbol scopes = n.valueSymbol scopes := by
  rcases n with ⟨role, form, span, first, children⟩
  rw [outline_mk]
  cases form with
  | parenthesized =>
    rcases children with _ | ⟨inner, _ | ⟨c, cs⟩⟩
    · rfl
    · exact valueSymbol_outline scopes inner
    · rfl
  | path =>
    rcases children with _ | ⟨c, _ | ⟨⟨role', form', span', first', children'⟩, _ | ⟨d, ds⟩⟩⟩
    · rfl
    · rfl
    · simp only [List.map_cons, List.map_nil, outline_mk]
      cases form' <;> rfl
    · simp only [List.map_cons, outline_mk]
      cases form' <;> rfl
  | _ => rfl

theorem declareParams_outline (scopes : Scopes) (ns : List Node) :
    declareParams scopes (ns.map outline) = declareParams scopes ns := by
  simp only [declareParams, List.foldl_map, form_outline]

theorem bindingOf_outline (scopes : Scopes) (n : Node) :
    bindingOf scopes n.outline = bindingOf scopes n := by
  simp only [bindingOf, form_outline, children_outline, List.filterMap_map, Function.comp_def,
    valueSymbol_outline]

theorem declareLet_outline (scopes : Scopes) (form : Form) (ns : List Node) :
    declareLet scopes form (ns.map outline) = declareLet scopes form ns := by
  have hfind : (ns.map outline).find? (·.role = .value) =
      (ns.find? (·.role = .value)).map outline := by
    simp only [List.find?_map, Function.comp_def, role_outline]
  cases form with
  | letStatement name =>
    unfold declareLet
    rw [hfind]
    cases ns.find? (·.role = .value) with
    | none => rfl
    | some value => simp only [Option.map_some, bindingOf_outline]
  | _ => rfl

theorem yieldsTable_outline (scopes : Scopes) (ns : List Node) :
    yieldsTable scopes (ns.map outline) = yieldsTable scopes ns := by
  rw [yieldsTable, yieldsTable, List.getLast?_map]
  rcases ns.getLast? with _ | ⟨role, form, span, first, children⟩
  · rfl
  · simp only [Option.map_some, outline_mk]
    cases form with
    | expressionStatement =>
      rcases children with _ | ⟨value, _ | ⟨c, cs⟩⟩
      · rfl
      · simp only [List.map_cons, List.map_nil, valueSymbol_outline]
      · rfl
    | _ => rfl

mutual

/-- Resolving a tree and forgetting places are independent of each other. -/
theorem outline_resolve (scopes : Scopes) (stance : Stance) : ∀ n : Node,
    (n.resolve catalog scopes stance).outline = n.outline.resolve catalog scopes stance
  | .mk role form span first children => by
    rw [outline_mk]
    cases form with
    | nameReference name symbol => cases stance <;> simp only [resolve, outline_mk]
    | namedParameter name => simp only [resolve, outline_mk]
    | parameter name type tabular => simp only [resolve, outline_mk]
    | query =>
      simp only [resolve, outline_mk, (outline_resolveStatements scopes.push children).2]
    | functionDeclaration view tabular =>
      have hfunction := outline_resolveFunction (declareParams scopes.push children) children
      simp only [resolve, outline_mk, declareParams_outline, hfunction]
    | _ => simp only [resolve, outline_mk, outline_resolveChildren]

theorem outline_resolveChildren (scopes : Scopes) (form : Form) (stance : Stance) (index : Nat) :
    ∀ ns : List Node, (resolveChildren catalog scopes form stance index ns).map outline =
      resolveChildren catalog scopes form stance index (ns.map outline)
  | [] => by simp [resolveChildren]
  | n :: ns => by
    simp only [resolveChildren, List.map_cons, outline_resolve scopes _ n, childStance_outline,
      outline_resolveChildren scopes form stance (index + 1) ns]

theorem outline_resolveFunction (scopes : Scopes) : ∀ ns : List Node,
    resolveFunction catalog scopes (ns.map outline) =
      ((resolveFunction catalog scopes ns).1, (resolveFunction catalog scopes ns).2.map outline)
  | [] => by simp [resolveFunction]
  | .mk role form span first children :: ns => by
    have hns := outline_resolveFunction scopes ns
    rw [List.map_cons, outline_mk]
    cases form with
    | query =>
      obtain ⟨hscopes, hstatements⟩ := outline_resolveStatements scopes children
      simp only [resolveFunction, List.map_cons, outline_mk, hns, hscopes, ← hstatements,
        yieldsTable_outline]
    | _ =>
      simp only [resolveFunction, List.map_cons, outline_mk, hns, outline_resolveChildren]

theorem outline_resolveStatements (scopes : Scopes) : ∀ ns : List Node,
    (resolveStatements catalog scopes (ns.map outline)).1 = (resolveStatements catalog scopes ns).1 ∧
      (resolveStatements catalog scopes ns).2.map outline =
        (resolveStatements catalog scopes (ns.map outline)).2
  | [] => by simp [resolveStatements]
  | .mk role form span first children :: ns => by
    have hchildren := outline_resolveChildren (declareParams scopes children) form .scalar 0 children
    have hns := outline_resolveStatements (declareLet (declareParams scopes children) form
      (resolveChildren catalog (declareParams scopes children) form .scalar 0 children)) ns
    rw [List.map_cons, outline_mk]
    simp only [resolveStatements, declareParams_outline, ← hchildren, declareLet_outline,
      List.map_cons, outline_mk]
    exact ⟨hns.1, by rw [hns.2]⟩

end

/-! ### Statements that declare nothing -/

theorem declareParams_eq {scopes : Scopes} {ns : List Node}
    (h : ∀ n ∈ ns, n.form.part ≠ .parameter) : declareParams scopes ns = scopes := by
  rw [declareParams]
  induction ns with
  | nil => rfl
  | cons n ns ih =>
    obtain ⟨hn, hns⟩ := List.forall_mem_cons.1 h
    rw [List.foldl_cons]
    split
    · rename_i name type tabular hform
      rw [hform] at hn
      exact absurd rfl hn
    · exact ih hns

/-- The children of a statement that declares nothing are no parameters. -/
theorem not_parameter_of_declares {n : Node} (h : n.Is text .statement) (hn : n.form.declares = false) :
    ∀ c ∈ n.children, c.form.part ≠ .parameter := by
  have hadmits := h.1.admits
  have hpart := h.2
  -- the parts of the children are those that the form admits
  have key {slots : List (Role × Part)} (hslots : n.children.map slot = slots)
      (hne : ∀ x ∈ slots, x.2 ≠ .parameter) : ∀ c ∈ n.children, c.form.part ≠ .parameter :=
    fun c hc => hne c.slot (hslots ▸ List.mem_map_of_mem hc)
  unfold Form.declares at hn
  cases hform : n.form with
  | letStatement name => rw [hform] at hn; cases hn
  | setStatement keyword name =>
    rw [hform] at hn hadmits
    rw [Form.Admits, if_neg (of_decide_eq_false hn)] at hadmits
    rcases hadmits with hslots | hslots
    · exact key hslots nofun
    · exact key hslots (by simp)
  | expressionStatement =>
    rw [hform] at hadmits
    obtain ⟨p, hp, hslots⟩ := hadmits
    refine key hslots ?_
    rcases hp with rfl | rfl <;> simp
  | _ => rw [hform] at hpart; cases hpart

theorem declareLet_eq {scopes : Scopes} {n : Node} (hn : n.form.declares = false)
    (children : List Node) : declareLet scopes n.form children = scopes := by
  unfold Form.declares at hn
  unfold declareLet
  split
  · rename_i name value hform _
    rw [hform] at hn
    cases hn
  · rfl

/-- Statements that declare nothing leave the scopes of those after them as they are. -/
theorem resolveStatements_append {scopes : Scopes} {as bs : List Node}
    (h : ∀ n ∈ as, n.Is text .statement ∧ n.form.declares = false) :
    (resolveStatements catalog scopes (as ++ bs)).2 =
      (resolveStatements catalog scopes as).2 ++ (resolveStatements catalog scopes bs).2 := by
  induction as with
  | nil => simp [resolveStatements]
  | cons n as ih =>
    obtain ⟨⟨hn, hdeclares⟩, has⟩ := List.forall_mem_cons.1 h
    rcases n with ⟨role, form, span, first, children⟩
    have hparams : declareParams scopes children = scopes :=
      declareParams_eq (not_parameter_of_declares hn hdeclares)
    have hlet (resolved : List Node) : declareLet scopes form resolved = scopes :=
      declareLet_eq hdeclares resolved
    simp only [List.cons_append, resolveStatements, hparams, hlet, ih has]

theorem map_form_resolveStatements (scopes : Scopes) (ns : List Node) :
    (resolveStatements catalog scopes ns).2.map form = ns.map form := by
  induction ns generalizing scopes with
  | nil => simp [resolveStatements]
  | cons n ns ih =>
    rcases n with ⟨role, form, span, first, children⟩
    simp only [resolveStatements, List.map_cons, ih]
    rfl

end Node
end KustoFacts
