import KustoFacts.Proofs.Facts.Findings
import KustoFacts.Proofs.Query.Parsed

/-!
    Where only a table can stand. A reference in such a place is one to a table, unless its name is
    declared somewhere in the text. Resolving goes down the tree with the scopes around a node, and
    a name that is declared nowhere is in none of them; it does not reach into the parameters of a
    directive, and the values of options, which it leaves alone too, have no such places. -/

namespace KustoFacts

/-- The name that a node of a form declares: that of a `let` statement or of a parameter. -/
def Form.declared? : Form → Option Bytes
  | .letStatement name | .parameter name _ _ => some name
  | _ => none

namespace Scopes

variable {scopes : Scopes} {name other : Bytes}

/-- No scope has a declaration of a name. -/
def Lacks (scopes : Scopes) (name : Bytes) : Prop := scopes.find? name = none

theorem lacks_top (name : Bytes) : top.Lacks name := rfl

theorem Lacks.push (h : scopes.Lacks name) : scopes.push.Lacks name := h

theorem Lacks.declare (h : scopes.Lacks name) (hne : other ≠ name) (binding : Binding) :
    (scopes.declare other binding).Lacks name := by
  rw [Lacks, find?, Scopes.declare, List.findSome?_cons, List.lookup_cons,
    beq_false_of_ne hne.symm]
  exact h

end Scopes

namespace Node

variable {text : Bytes} {catalog : TableNames} {name : Bytes} {scopes : Scopes}
  {Q : Node → Prop}

/-- A node is another one or stands in it, and not in the parameters of a directive. -/
inductive Reaches : Node → Node → Prop where
  | self (n : Node) : Reaches n n
  | inside {n c m : Node} (hc : c ∈ n.children)
      (hdirective : n.kind = .setStatement → c.role ≠ .parameter) (h : Reaches c m) : Reaches n m

/-- A reference to a name is one to a table. -/
def ToTable (name : Bytes) (n : Node) : Prop :=
  ∀ symbol, n.form = .nameReference name symbol → symbol = .table

/-- A node as resolving leaves it where a table is expected and a name is declared nowhere. -/
def AsTable (catalog : TableNames) (name : Bytes) (c : Node) : Prop :=
  ∃ (scopes : Scopes) (n : Node), scopes.Lacks name ∧ c = n.resolve catalog scopes .tabular

/-- Every node in the place of a table has a property. -/
def EveryPlace (Q : Node → Prop) (root : Node) : Prop :=
  ∀ parent, root.Reaches parent → ∀ c ∈ parent.children, parent.form.expectsTable c.role = true →
    Q c

/-- Every reference to a name in the place of a table is one to a table. -/
def Typed (name : Bytes) (root : Node) : Prop := root.EveryPlace (ToTable name)

/-- The names that the nodes of a tree declare. -/
def declared (root : Node) : List Bytes := root.preorder.filterMap (·.form.declared?)

/-- Nothing in a tree declares a name. -/
def Undeclared (name : Bytes) (root : Node) : Prop := name ∉ root.declared

/-! ### Step by step -/

theorem Undeclared.self {n : Node} (h : n.Undeclared name) : n.form.declared? ≠ some name := by
  intro hname
  refine h (List.mem_filterMap.2 ⟨n, ?_, hname⟩)
  rw [preorder_eq]
  exact List.mem_cons_self

theorem Undeclared.children {n : Node} (h : n.Undeclared name) :
    ∀ c ∈ n.children, c.Undeclared name := by
  intro c hc hname
  obtain ⟨m, hm, hname⟩ := List.mem_filterMap.1 hname
  refine h (List.mem_filterMap.2 ⟨m, ?_, hname⟩)
  rw [preorder_eq]
  exact List.mem_cons_of_mem _ (List.mem_flatMap.2 ⟨c, hc, hm⟩)

/-- The children of a node that is reached stand below the root. -/
theorem Reaches.mem_below {n parent : Node} (h : n.Reaches parent) :
    ∀ c ∈ parent.children, c ∈ n.children.flatMap preorder := by
  intro c hc
  induction h with
  | self n => exact List.mem_flatMap.2 ⟨c, hc, preorder_eq c ▸ List.mem_cons_self⟩
  | inside hd _ _ ih =>
    refine List.mem_flatMap.2 ⟨_, hd, ?_⟩
    rw [preorder_eq]
    exact List.mem_cons_of_mem _ (ih hc)

/-- What a directive has in the place of parameters are parameters. -/
theorem parameter_of_directive {form : Form} {slots : List (Role × Part)} (h : form.Admits slots)
    (hkind : form.kind = .setStatement) {slot : Role × Part} (hslot : slot ∈ slots)
    (hrole : slot.1 = .parameter) : slot.2 = .parameter := by
  cases form with
  | setStatement keyword directive =>
    rw [Form.Admits] at h
    split at h
    · exact (h slot hslot).2
    · rcases h with rfl | rfl
      · cases hslot
      · rw [List.mem_singleton.1 hslot] at hrole
        cases hrole
  | stub kind fault => exact h.elim
  | _ => cases hkind

theorem kind_of_parameter {n : Node} (h : n.form.part = .parameter) : n.kind = .parameter := by
  rw [kind]
  cases hform : n.form with
  | parameter name type tabular => rfl
  | _ =>
    rw [hform] at h
    cases h

/-- In a tree without parameters, every node is reached. -/
theorem WellFormed.reaches {root : Node} (h : root.WellFormed text)
    (hnone : ∀ m ∈ root.preorder, m.kind ≠ .parameter) : ∀ m ∈ root.preorder, root.Reaches m := by
  induction h with
  | @mk role form span first children ordered inside admits below ih =>
    intro m hm
    rw [preorder_mk] at hm hnone
    obtain ⟨-, hnone⟩ := List.forall_mem_cons.1 hnone
    rcases List.mem_cons.1 hm with rfl | hm
    · exact .self _
    · obtain ⟨c, hc, hm⟩ := List.mem_flatMap.1 hm
      have hbelow : ∀ d ∈ c.preorder, d.kind ≠ .parameter :=
        fun d hd => hnone d (List.mem_flatMap.2 ⟨c, hc, hd⟩)
      refine .inside hc (fun hdirective hrole => ?_) (ih c hc hbelow m hm)
      have hpart : c.form.part = .parameter :=
        parameter_of_directive admits hdirective (List.mem_map_of_mem hc) hrole
      exact hbelow c (preorder_eq c ▸ List.mem_cons_self) (kind_of_parameter hpart)

/-- Every place in a tree is one for a child of its root or in the tree of a child. -/
theorem everyPlace_of_children {n : Node}
    (hhere : ∀ c ∈ n.children, n.form.expectsTable c.role = true → Q c)
    (hbelow : ∀ c ∈ n.children, (n.kind = .setStatement → c.role ≠ .parameter) → c.EveryPlace Q) :
    n.EveryPlace Q := by
  intro parent hreaches
  cases hreaches with
  | self => exact hhere
  | inside hc hdirective h => exact hbelow _ hc hdirective parent h

/-- Where no table is expected, there are no places. -/
theorem Tableless.everyPlace {n : Node} (h : n.Tableless) : n.EveryPlace Q := by
  induction h with
  | mk slots below ih =>
    refine everyPlace_of_children ?_ fun c hc _ => ih c hc
    intro c hc hexpects
    rw [Node.form, slots] at hexpects
    cases hexpects

/-! ### Scopes -/

/-- Parameters of which the resolved ones declare other names only. -/
theorem lacks_declareParams (h : scopes.Lacks name) {ns resolved : List Node}
    (hresolved : resolved.map (·.form.declared?) = ns.map (·.form.declared?))
    (hundeclared : ∀ n ∈ resolved, n.Undeclared name) : (declareParams scopes ns).Lacks name := by
  have hns : ∀ n ∈ ns, n.form.declared? ≠ some name := by
    intro n hn hname
    have hmem : some name ∈ resolved.map (·.form.declared?) := by
      rw [hresolved, ← hname]
      exact List.mem_map_of_mem hn
    obtain ⟨c, hc, hcname⟩ := List.mem_map.1 hmem
    exact (hundeclared c hc).self hcname
  clear hresolved
  induction ns generalizing scopes with
  | nil => exact h
  | cons n ns ih =>
    obtain ⟨hn, hns⟩ := List.forall_mem_cons.1 hns
    rw [declareParams, List.foldl_cons]
    refine ih ?_ hns
    split
    next other type tabular hform =>
      rw [hform] at hn
      exact h.declare (fun heq => hn (by rw [Form.declared?, heq])) _
    next => exact h

theorem lacks_declareLet (h : scopes.Lacks name) {form : Form} (hform : form.declared? ≠ some name)
    (children : List Node) : (declareLet scopes form children).Lacks name := by
  unfold declareLet
  split
  next other value _ => exact h.declare (fun heq => hform (by rw [Form.declared?, heq])) _
  next => exact h

theorem declared?_resolve (scopes : Scopes) (stance : Stance) (n : Node) :
    (n.resolve catalog scopes stance).form.declared? = n.form.declared? := by
  rcases n with ⟨role, form, span, first, children⟩
  cases form <;> simp only [resolve] <;> rfl

theorem declared?_resolveChildren (scopes : Scopes) (form : Form) (stance : Stance) (index : Nat)
    (ns : List Node) :
    (resolveChildren catalog scopes form stance index ns).map (·.form.declared?) =
      ns.map (·.form.declared?) := by
  induction ns generalizing index with
  | nil => simp [resolveChildren]
  | cons n ns ih => rw [resolveChildren, List.map_cons, List.map_cons, ih, declared?_resolve]

theorem declared?_resolveFunction (scopes : Scopes) (ns : List Node) :
    (resolveFunction catalog scopes ns).2.map (·.form.declared?) = ns.map (·.form.declared?) := by
  induction ns with
  | nil => simp [resolveFunction]
  | cons n ns ih =>
    rcases n with ⟨role, form, span, first, children⟩
    cases form <;> simp only [resolveFunction, List.map_cons, ih] <;> rfl

/-! ### Places -/

/-- A name that is declared nowhere is one of a table where a table is expected. -/
theorem toTable_resolve (h : scopes.Lacks name) (n : Node) :
    (n.resolve catalog scopes .tabular).ToTable name := by
  rcases n with ⟨role, form, span, first, children⟩
  intro symbol hform
  cases form with
  | nameReference other earlier =>
    simp only [resolve, Node.form, Form.nameReference.injEq] at hform
    obtain ⟨rfl, rfl⟩ := hform
    simp [resolveName, show scopes.find? other = none from h, Stance.isTabular]
  | _ =>
    simp only [resolve, Node.form] at hform
    cases hform

theorem mem_resolveChildren {form : Form} {stance : Stance} {c : Node} :
    ∀ {ns : List Node} {index : Nat}, c ∈ resolveChildren catalog scopes form stance index ns →
      ∃ n ∈ ns, ∃ index, c = n.resolve catalog scopes (childStance scopes form stance index n)
  | [], index, hc => by simp [resolveChildren] at hc
  | n :: ns, index, hc => by
    rw [resolveChildren] at hc
    rcases List.mem_cons.1 hc with rfl | hc
    · exact ⟨n, List.mem_cons_self, index, rfl⟩
    · obtain ⟨m, hm, hresolved⟩ := mem_resolveChildren hc
      exact ⟨m, List.mem_cons_of_mem _ hm, hresolved⟩

namespace AsTable

variable {c : Node}

theorem toTable (h : c.AsTable catalog name) : c.ToTable name := by
  obtain ⟨scopes, n, hlacks, rfl⟩ := h
  exact toTable_resolve hlacks n

/-- In parentheses a table is expected as well. -/
theorem inParens (h : c.AsTable catalog name) (hform : c.form = .parenthesized) :
    ∀ inner ∈ c.children, inner.AsTable catalog name := by
  obtain ⟨scopes, ⟨role, form, span, first, children⟩, hlacks, rfl⟩ := h
  cases form with
  | parenthesized =>
    intro inner hinner
    simp only [resolve, Node.children] at hinner
    obtain ⟨n, -, index, rfl⟩ := mem_resolveChildren hinner
    exact ⟨scopes, n, hlacks, rfl⟩
  | _ =>
    simp only [resolve] at hform
    cases hform

end AsTable

/-- What stands in the place of a table is resolved as such. -/
theorem childStance_of_expectsTable {form : Form} {c : Node}
    (h : form.expectsTable c.role = true) (scopes : Scopes) (stance : Stance) (index : Nat) :
    childStance scopes form stance index c = .tabular := by
  cases form with
  | pipeExpression | join kind | lookup kind | union =>
    have hrole := of_decide_eq_true h
    simp [childStance, hrole, Stance.ofBool]
  | _ => cases h

/-- Parameters belong to directives and functions alone. -/
theorem parameter_of_admits {form : Form} {slots : List (Role × Part)} (h : form.Admits slots)
    (hform : form.part ≠ .function) {slot : Role × Part} (hslot : slot ∈ slots)
    (hpart : slot.2 = .parameter) : form.kind = .setStatement ∧ slot.1 = .parameter := by
  cases form with
  | functionDeclaration view tabular => exact absurd rfl hform
  | setStatement keyword directive =>
    rw [Form.Admits] at h
    split at h
    · exact ⟨rfl, (h slot hslot).1⟩
    · rcases h with rfl | rfl
      · cases hslot
      · rw [List.mem_singleton.1 hslot] at hpart
        cases hpart
  | stub kind fault => exact h.elim
  | _ =>
    simp only [Form.Admits] at h
    grind [Form.Slots, Part.IsSource, Part.IsElement]

/-- Every place in a node was resolved as one if its children were resolved where they stand. -/
theorem everyPlace_of_resolveChildren {role : Role} {form : Form} {span : Span} {first : Token}
    {children : List Node} {stance : Stance}
    (hmade : (Node.mk role form span first children).Made text) (hform : form.part ≠ .function)
    (h : ∀ c ∈ resolveChildren catalog scopes form stance 0 children,
      (c.form.part ≠ .parameter → c.EveryPlace (AsTable catalog name)) ∧
        (form.expectsTable c.role = true → c.AsTable catalog name)) :
    EveryPlace (AsTable catalog name)
      (.mk role form span first (resolveChildren catalog scopes form stance 0 children)) := by
  refine everyPlace_of_children (fun c hc => (h c hc).2) ?_
  intro c hc hdirective
  refine (h c hc).1 fun hpart => ?_
  have hslots : (resolveChildren catalog scopes form stance 0 children).map slot =
      children.map slot :=
    (wellFormed_resolveChildren scopes form stance 0 children
      fun n hn => (hmade.children n hn).wellFormed).1
  have hslot : c.slot ∈ children.map slot := hslots ▸ List.mem_map_of_mem hc
  obtain ⟨hkind, hrole⟩ := parameter_of_admits hmade.wellFormed.admits hform hslot hpart
  exact hdirective hkind hrole

mutual

/-- Every place in a node was resolved as the place of a table. -/
theorem everyPlace_resolve {scopes : Scopes} (h : scopes.Lacks name) (stance : Stance) : ∀ n : Node,
    n.Made text → n.form.part ≠ .parameter → (n.resolve catalog scopes stance).Undeclared name →
      (n.resolve catalog scopes stance).EveryPlace (AsTable catalog name)
  | .mk role form span first children, hmade, hpart, hundeclared => by
    have hadmits := hmade.wellFormed.admits
    cases form with
    | nameReference other symbol =>
      obtain rfl : children = [] := List.map_eq_nil_iff.1 hadmits
      simp only [resolve]
      exact everyPlace_of_children nofun nofun
    | namedParameter other =>
      obtain ⟨hoptions, -⟩ := hmade.options
      simp only [resolve]
      exact everyPlace_of_children nofun fun c hc _ => (hoptions rfl c hc).everyPlace
    | parameter other type tabular => exact absurd rfl hpart
    | query =>
      have hparts : ∀ n ∈ children, n.form.part = .statement :=
        fun n hn => (hadmits n.slot (List.mem_map_of_mem hn)).2
      simp only [resolve] at hundeclared ⊢
      have hstatements := everyPlace_resolveStatements h.push children hmade.children hparts
        hundeclared.children
      exact everyPlace_of_children nofun fun c hc _ => hstatements c hc
    | functionDeclaration view tabular =>
      obtain ⟨params, hparams, hslots⟩ := hadmits
      have hparts : ∀ n ∈ children, n.form.part ≠ .function := by
        intro n hn
        have hslot : n.slot ∈ params ++ [(.body, .query)] := hslots ▸ List.mem_map_of_mem hn
        rcases List.mem_append.1 hslot with hparam | hbody
        · rw [show n.form.part = _ from (hparams n.slot hparam).2]
          nofun
        · rw [show n.form.part = _ from congrArg Prod.snd (List.mem_singleton.1 hbody)]
          nofun
      simp only [resolve] at hundeclared ⊢
      have hinner : (declareParams scopes.push children).Lacks name :=
        lacks_declareParams h.push (declared?_resolveFunction _ children) hundeclared.children
      have hchildren := everyPlace_resolveFunction hinner children hmade.children hparts
        hundeclared.children
      exact everyPlace_of_children nofun fun c hc _ => hchildren c hc
    | _ =>
      simp only [resolve] at hundeclared ⊢
      refine everyPlace_of_resolveChildren hmade nofun ?_
      exact everyPlace_resolveChildren h _ stance 0 children hmade.children hundeclared.children

theorem everyPlace_resolveChildren {scopes : Scopes} (h : scopes.Lacks name) (form : Form)
    (stance : Stance) (index : Nat) : ∀ ns : List Node, (∀ n ∈ ns, n.Made text) →
      (∀ c ∈ resolveChildren catalog scopes form stance index ns, c.Undeclared name) →
      ∀ c ∈ resolveChildren catalog scopes form stance index ns,
        (c.form.part ≠ .parameter → c.EveryPlace (AsTable catalog name)) ∧
          (form.expectsTable c.role = true → c.AsTable catalog name)
  | [], _, _ => by simp [resolveChildren]
  | n :: ns, hmade, hundeclared => by
    obtain ⟨hn, hns⟩ := List.forall_mem_cons.1 hmade
    rw [resolveChildren] at hundeclared ⊢
    obtain ⟨hdeclares, hrest⟩ := List.forall_mem_cons.1 hundeclared
    have hslot :
        (n.resolve catalog scopes (childStance scopes form stance index n)).slot = n.slot :=
      slot_resolve ..
    obtain ⟨hrole, hpart⟩ := Prod.mk.inj hslot
    refine List.forall_mem_cons.2 ⟨⟨?_, ?_⟩,
      everyPlace_resolveChildren h form stance (index + 1) ns hns hrest⟩
    · rw [hpart]
      intro hother
      exact everyPlace_resolve h _ n hn hother hdeclares
    · rw [hrole]
      intro hexpects
      rw [childStance_of_expectsTable hexpects]
      exact ⟨scopes, n, h, rfl⟩

theorem everyPlace_resolveFunction {scopes : Scopes} (h : scopes.Lacks name) : ∀ ns : List Node,
    (∀ n ∈ ns, n.Made text) → (∀ n ∈ ns, n.form.part ≠ .function) →
    (∀ c ∈ (resolveFunction catalog scopes ns).2, c.Undeclared name) →
      ∀ c ∈ (resolveFunction catalog scopes ns).2, c.EveryPlace (AsTable catalog name)
  | [], _, _, _ => by simp [resolveFunction]
  | .mk role form span first children :: ns, hmade, hparts, hundeclared => by
    obtain ⟨hn, hns⟩ := List.forall_mem_cons.1 hmade
    obtain ⟨hpart, hrestparts⟩ := List.forall_mem_cons.1 hparts
    cases form with
    | query =>
      simp only [resolveFunction] at hundeclared ⊢
      obtain ⟨hdeclares, hrest⟩ := List.forall_mem_cons.1 hundeclared
      refine List.forall_mem_cons.2 ⟨?_, everyPlace_resolveFunction h ns hns hrestparts hrest⟩
      have hstatements := everyPlace_resolveStatements h children hn.children
        (fun n hm => (hn.wellFormed.admits n.slot (List.mem_map_of_mem hm)).2) hdeclares.children
      exact everyPlace_of_children nofun fun c hc _ => hstatements c hc
    | _ =>
      simp only [resolveFunction] at hundeclared ⊢
      obtain ⟨hdeclares, hrest⟩ := List.forall_mem_cons.1 hundeclared
      refine List.forall_mem_cons.2 ⟨?_, everyPlace_resolveFunction h ns hns hrestparts hrest⟩
      refine everyPlace_of_resolveChildren hn hpart ?_
      exact everyPlace_resolveChildren h _ .scalar 0 children hn.children hdeclares.children

theorem everyPlace_resolveStatements {scopes : Scopes} (h : scopes.Lacks name) : ∀ ns : List Node,
    (∀ n ∈ ns, n.Made text) → (∀ n ∈ ns, n.form.part = .statement) →
    (∀ c ∈ (resolveStatements catalog scopes ns).2, c.Undeclared name) →
      ∀ c ∈ (resolveStatements catalog scopes ns).2, c.EveryPlace (AsTable catalog name)
  | [], _, _, _ => by simp [resolveStatements]
  | .mk role form span first children :: ns, hmade, hparts, hundeclared => by
    obtain ⟨hn, hns⟩ := List.forall_mem_cons.1 hmade
    obtain ⟨hpart, hrestparts⟩ := List.forall_mem_cons.1 hparts
    rw [resolveStatements] at hundeclared ⊢
    obtain ⟨hdeclares, hrest⟩ := List.forall_mem_cons.1 hundeclared
    have hparams : (declareParams scopes children).Lacks name :=
      lacks_declareParams h (declared?_resolveChildren _ form .scalar 0 children)
        hdeclares.children
    refine List.forall_mem_cons.2 ⟨?_, ?_⟩
    · refine everyPlace_of_resolveChildren hn (by rw [show form.part = _ from hpart]; nofun) ?_
      exact everyPlace_resolveChildren hparams _ .scalar 0 children hn.children hdeclares.children
    · exact everyPlace_resolveStatements (lacks_declareLet hparams hdeclares.self _) ns hns
        hrestparts hrest

end

end Node

variable {catalog : TableNames} {text name : Bytes} {p : Parsed}

/-- In the tree of a text, whatever is in the place of a table was resolved as a table, without a
    declaration of a name that is declared nowhere, unless it stands in the parameters of a
    directive. -/
theorem asTable_parse (h : parse catalog text = .ok p) (hname : p.root.Undeclared name) :
    p.root.EveryPlace (Node.AsTable catalog name) := by
  obtain ⟨read, hread, rfl⟩ := parse_ok h
  obtain ⟨hmade, hquery⟩ := made_parseTokens hread
  have hpart : (parseTokens (Parsed.withoutMark text) read).1.form.part ≠ .parameter := by
    rw [hquery]
    nofun
  exact Node.everyPlace_resolve (Scopes.lacks_top name) .scalar _ hmade hpart hname

/-- In the tree of a text, every reference in the place of a table is one to a table, unless its
    name is declared or it stands in the parameters of a directive. -/
theorem typed_parse (h : parse catalog text = .ok p) (hname : p.root.Undeclared name) :
    p.root.Typed name := fun parent hreaches c hc hexpects =>
  (asTable_parse h hname parent hreaches c hc hexpects).toTable

end KustoFacts
