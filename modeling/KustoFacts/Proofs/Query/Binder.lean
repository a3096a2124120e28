import KustoFacts.Proofs.Query.Shape
import KustoFacts.Query.Symbols

/-!
    Names resolved with one stack. `Node.resolve` takes the scopes as a value, so that nothing
    declared inside a node can be seen outside of it. `Node.bind` walks the tree in the same order
    with a single stack that it changes: a block or function opens a scope and closes it, and a
    statement declares its names in the innermost. It leaves the stack as it found it and resolves
    the same names to the same symbols. -/

namespace KustoFacts

/-- A walk that changes a stack of scopes, innermost first, and fails where it needs a scope and
    there is none. -/
abbrev Binder := StateT (List Scope) Option

namespace Binder

/-- Opens a scope. -/
def push : Binder Unit := modify ([] :: ·)

/-- Closes the innermost scope. -/
def pop : Binder Unit := do
  match ← get with
  | _ :: outer => set outer
  | [] => failure

/-- Declares a name in the innermost scope. -/
def declare (name : Bytes) (binding : Binding) : Binder Unit := do
  match ← get with
  | inner :: outer => set (((name, binding) :: inner) :: outer)
  | [] => failure

/-- Declares names one after another. -/
def declareAll (declarations : List (Bytes × Binding)) : Binder Unit :=
  declarations.forM fun (name, binding) => declare name binding

/-- The scopes as they stand. -/
def scopes : Binder Scopes := do
  match ← get with
  | inner :: outer => return ⟨inner, outer⟩
  | [] => failure

end Binder

/-- What a parameter declares. -/
def Node.paramDeclaration? (n : Node) : Option (Bytes × Binding) :=
  match n.form with
  | .parameter name _ tabular => some (name, .plain (if tabular then .table else .scalar))
  | _ => none

/-- What a statement with bound children declares when it is a `let` statement. -/
def Node.letDeclaration? (scopes : Scopes) (form : Form) (children : List Node) :
    Option (Bytes × Binding) :=
  match form, children.find? (·.role = .value) with
  | .letStatement name, some value => some (name, bindingOf scopes value)
  | _, _ => none

namespace Node

open Binder

mutual

/-- Resolves the names in a node. -/
def bind (catalog : TableNames) (stance : Stance) : Node → Binder Node
  | .mk role form span first children =>
    match form with
    | .nameReference name symbol => do
      match stance with
      | .member tabular =>
        let symbol := if tabular then .table else symbol
        return .mk role (.nameReference name symbol) span first children
      | stance =>
        let symbol := resolveName catalog (← scopes) stance.isTabular name
        return .mk role (.nameReference name symbol) span first children
    | .namedParameter _ | .parameter _ _ _ => return .mk role form span first children
    | .query => do
      push
      let children ← bindStatements catalog children
      pop
      return .mk role form span first children
    | .functionDeclaration view _ => do
      push
      declareAll (children.filterMap paramDeclaration?)
      let (tabular, children) ← bindFunction catalog children
      pop
      return .mk role (.functionDeclaration view tabular) span first children
    | form => do
      let children ← bindChildren catalog form stance 0 children
      return .mk role form span first children

/-- Resolves the names in the children of a node, each where it stands. -/
def bindChildren (catalog : TableNames) (form : Form) (stance : Stance) (index : Nat) :
    List Node → Binder (List Node)
  | [] => return []
  | n :: ns => do
    let m ← n.bind catalog (childStance (← scopes) form stance index n)
    let ms ← bindChildren catalog form stance (index + 1) ns
    return m :: ms

/-- Resolves the names in the parameters of a function and in its body, which comes last. -/
def bindFunction (catalog : TableNames) : List Node → Binder (Bool × List Node)
  | [] => return (false, [])
  | .mk role form span first children :: ns =>
    match form with
    | .query => do
      let (_, ns) ← bindFunction catalog ns
      let statements ← bindStatements catalog children
      return (yieldsTable (← scopes) statements, .mk role form span first statements :: ns)
    | form => do
      let children ← bindChildren catalog form .scalar 0 children
      let (tabular, ns) ← bindFunction catalog ns
      return (tabular, .mk role form span first children :: ns)

/-- Resolves the names in a statement and declares what it declares: parameters before, the name of
    a `let` statement after. -/
def bindStatement (catalog : TableNames) : Node → Binder Node
  | .mk role form span first children => do
    declareAll (children.filterMap paramDeclaration?)
    let children ← bindChildren catalog form .scalar 0 children
    declareAll (letDeclaration? (← scopes) form children).toList
    return .mk role form span first children

/-- Resolves the names in statements, in order. -/
def bindStatements (catalog : TableNames) : List Node → Binder (List Node)
  | [] => return []
  | n :: ns => do
    let m ← bindStatement catalog n
    let ms ← bindStatements catalog ns
    return m :: ms

end

end Node

/-! ### The stack -/

namespace Scopes

/-- The scopes as a stack. -/
def stack (scopes : Scopes) : List Scope := scopes.inner :: scopes.outer

/-- The scopes with declarations added to the innermost, latest first. -/
def extend (declarations : Scope) (scopes : Scopes) : Scopes :=
  { scopes with inner := declarations ++ scopes.inner }

end Scopes

namespace Binder

variable {α β : Type}

/-- A walk that leaves the stack as it finds it. -/
def Keeps (p : Binder α) : Prop :=
  ∀ scopes : Scopes, ∃ a, p.run scopes.stack = some (a, scopes.stack)

/-- A walk that only declares names in the innermost scope. -/
def Extends (p : Binder α) : Prop :=
  ∀ scopes : Scopes, ∃ a own, p.run scopes.stack = some (a, (scopes.extend own).stack)

theorem Keeps.extends {p : Binder α} (h : Keeps p) : Extends p := fun scopes => by
  obtain ⟨a, ha⟩ := h scopes
  exact ⟨a, [], ha⟩

theorem keeps_pure (a : α) : Keeps (pure a) := fun _ => ⟨a, rfl⟩

theorem keeps_scopes : Keeps scopes := fun scopes => ⟨scopes, rfl⟩

theorem Keeps.bind {p : Binder α} {f : α → Binder β} (hp : Keeps p) (hf : ∀ a, Keeps (f a)) :
    Keeps (p >>= f) := fun scopes => by
  obtain ⟨a, ha⟩ := hp scopes
  obtain ⟨b, hb⟩ := hf a scopes
  exact ⟨b, by rw [StateT.run_bind, ha]; exact hb⟩

theorem Extends.bind {p : Binder α} {f : α → Binder β} (hp : Extends p) (hf : ∀ a, Extends (f a)) :
    Extends (p >>= f) := fun scopes => by
  obtain ⟨a, own, ha⟩ := hp scopes
  obtain ⟨b, own', hb⟩ := hf a (scopes.extend own)
  refine ⟨b, own' ++ own, ?_⟩
  rw [StateT.run_bind, ha]
  refine hb.trans ?_
  rw [Scopes.extend, Scopes.extend, Scopes.extend, List.append_assoc]

/-- What is declared in a scope is gone when the scope is closed. -/
theorem Extends.closed {p : Binder α} {f : α → Binder β} (hp : Extends p)
    (hf : ∀ a, Keeps (f a)) :
    Keeps (do push; let a ← p; pop; f a) := fun scopes => by
  obtain ⟨a, own, ha⟩ := hp scopes.push
  obtain ⟨b, hb⟩ := hf a scopes
  refine ⟨b, ?_⟩
  change (p >>= fun a => pop >>= fun _ => f a).run scopes.push.stack = _
  rw [StateT.run_bind, ha]
  exact hb

/-- Declarations extend the innermost scope. -/
theorem run_declareAll (declarations : List (Bytes × Binding)) (scopes : Scopes) :
    (declareAll declarations).run scopes.stack =
      some ((), (scopes.extend declarations.reverse).stack) := by
  induction declarations generalizing scopes with
  | nil => rfl
  | cons d ds ih =>
    have hstep : (declareAll (d :: ds)).run scopes.stack =
        (declareAll ds).run (scopes.extend [d]).stack := rfl
    rw [hstep, ih, List.reverse_cons, Scopes.extend, Scopes.extend, Scopes.extend,
      List.append_assoc]

theorem extends_declareAll (declarations : List (Bytes × Binding)) :
    Extends (declareAll declarations) :=
  fun scopes => ⟨(), declarations.reverse, run_declareAll declarations scopes⟩

end Binder

namespace Node

open Binder

variable (catalog : TableNames)

mutual

/-- Resolving the names in a node leaves the stack as it was. -/
theorem keeps_bind (stance : Stance) : ∀ n : Node, Keeps (n.bind catalog stance)
  | .mk role form span first children => by
    cases form with
    | nameReference name symbol =>
      cases stance with
      | member tabular => exact keeps_pure _
      | _ => exact keeps_scopes.bind fun _ => keeps_pure _
    | namedParameter | parameter => exact keeps_pure _
    | query => exact (extends_bindStatements children).closed fun _ => keeps_pure _
    | functionDeclaration view tabular =>
      have hbody := (extends_declareAll (children.filterMap paramDeclaration?)).bind
        fun _ => extends_bindFunction children
      have hclosed := hbody.closed fun r =>
        keeps_pure (mk role (.functionDeclaration view r.1) span first r.2)
      rw [bind]
      simpa only [bind_assoc] using hclosed
    | _ => exact (keeps_bindChildren _ stance 0 children).bind fun _ => keeps_pure _

theorem keeps_bindChildren (form : Form) (stance : Stance) (index : Nat) :
    ∀ ns : List Node, Keeps (bindChildren catalog form stance index ns)
  | [] => keeps_pure _
  | n :: ns => keeps_scopes.bind fun _ => (keeps_bind _ n).bind fun _ =>
      (keeps_bindChildren form stance (index + 1) ns).bind fun _ => keeps_pure _

theorem extends_bindFunction : ∀ ns : List Node, Extends (bindFunction catalog ns)
  | [] => (keeps_pure _).extends
  | .mk role form span first children :: ns => by
    cases form with
    | query =>
      exact (extends_bindFunction ns).bind fun _ => (extends_bindStatements children).bind fun _ =>
        (keeps_scopes.bind fun _ => keeps_pure _).extends
    | _ =>
      exact (keeps_bindChildren _ .scalar 0 children).extends.bind fun _ =>
        (extends_bindFunction ns).bind fun _ => (keeps_pure _).extends

theorem extends_bindStatement : ∀ n : Node, Extends (bindStatement catalog n)
  | .mk _ form _ _ children =>
    (extends_declareAll _).bind fun _ => (keeps_bindChildren form .scalar 0 children).extends.bind
      fun _ => keeps_scopes.extends.bind fun _ => (extends_declareAll _).bind
        fun _ => (keeps_pure _).extends

theorem extends_bindStatements : ∀ ns : List Node, Extends (bindStatements catalog ns)
  | [] => (keeps_pure _).extends
  | n :: ns => (extends_bindStatement n).bind fun _ => (extends_bindStatements ns).bind
      fun _ => (keeps_pure _).extends

end

/-! ### The same symbols -/

theorem declareParams_eq_extend (scopes : Scopes) (ns : List Node) :
    declareParams scopes ns = scopes.extend (ns.filterMap paramDeclaration?).reverse := by
  induction ns generalizing scopes with
  | nil => rfl
  | cons n ns ih =>
    rw [declareParams, List.foldl_cons]
    refine (ih _).trans ?_
    rw [List.filterMap_cons, paramDeclaration?]
    cases n.form with
    | parameter name type tabular =>
      simp only [List.reverse_cons, Scopes.extend, Scopes.declare, List.append_assoc,
        List.singleton_append]
    | _ => rfl

theorem declareLet_eq_extend (scopes : Scopes) (form : Form) (children : List Node) :
    declareLet scopes form children =
      scopes.extend (letDeclaration? scopes form children).toList := by
  unfold declareLet letDeclaration?
  cases form with
  | letStatement name => cases children.find? (·.role = .value) <;> rfl
  | _ => rfl

/-- What a statement declares, latest first: a `let` statement its name, with what its resolved
    value gives it, and any statement its parameters. -/
def declarations (scopes : Scopes) (n : Node) : Scope :=
  let params := (n.children.filterMap paramDeclaration?).reverse
  let scopes := scopes.extend params
  let children := resolveChildren catalog scopes n.form .scalar 0 n.children
  (letDeclaration? scopes n.form children).toList ++ params

/-- What statements declare in order, latest first. -/
def allDeclarations (scopes : Scopes) : List Node → Scope
  | [] => []
  | n :: ns => allDeclarations (scopes.extend (n.declarations catalog scopes)) ns ++
      n.declarations catalog scopes

theorem declareLet_declareParams (scopes : Scopes) (n : Node) :
    declareLet (declareParams scopes n.children) n.form
        (resolveChildren catalog (declareParams scopes n.children) n.form .scalar 0 n.children) =
      scopes.extend (n.declarations catalog scopes) := by
  simp only [declareLet_eq_extend, declareParams_eq_extend, declarations, Scopes.extend,
    List.append_assoc]

/-- Statements only declare names in the innermost scope. -/
theorem fst_resolveStatements (scopes : Scopes) (ns : List Node) :
    (resolveStatements catalog scopes ns).1 = scopes.extend (allDeclarations catalog scopes ns) := by
  induction ns generalizing scopes with
  | nil =>
    rw [resolveStatements]
    rfl
  | cons n ns ih =>
    rcases n with ⟨role, form, span, first, children⟩
    have hdeclared := declareLet_declareParams catalog scopes (.mk role form span first children)
    simp only [Node.children, Node.form] at hdeclared
    rw [resolveStatements, hdeclared, allDeclarations]
    simp only [ih, Scopes.extend, List.append_assoc]

/-- A tree in which no function has more than one body. -/
inductive SingleBodied : Node → Prop where
  | mk {role : Role} {form : Form} {span : Span} {first : Token} {children : List Node}
      (body : form.part = .function → children.countP (·.form.part = .query) ≤ 1)
      (below : ∀ c ∈ children, c.SingleBodied) : SingleBodied (.mk role form span first children)

/-- Trees of the parser are such trees. -/
theorem WellFormed.singleBodied {text : Bytes} {n : Node} (h : n.WellFormed text) :
    n.SingleBodied := by
  induction h with
  | @mk role form span first children ordered inside admits _ below =>
    refine .mk (fun hform => ?_) below
    cases form with
    | functionDeclaration view tabular =>
      obtain ⟨params, hparams, hslots⟩ := admits
      have hcount : children.countP (·.form.part = .query) =
          (children.map slot).countP (·.2 = .query) := by
        rw [List.countP_map]
        rfl
      rw [hcount, hslots, List.countP_append, List.countP_eq_zero.2]
      · decide
      · intro x hx
        rw [(hparams x hx).2]
        decide
    | _ => cases hform

theorem SingleBodied.children {role : Role} {form : Form} {span : Span} {first : Token}
    {children : List Node} (h : (Node.mk role form span first children).SingleBodied) :
    ∀ c ∈ children, c.SingleBodied := by
  cases h with
  | mk _ below => exact below

theorem run_scopes (scopes : Scopes) :
    Binder.scopes.run scopes.stack = some (scopes, scopes.stack) := rfl

/-- A statement declares its names around what is done with its children. -/
theorem run_bindStatement {scopes : Scopes} {n : Node} {bound : List Node}
    (h : (bindChildren catalog n.form .scalar 0 n.children).run
        (declareParams scopes n.children).stack =
      some (bound, (declareParams scopes n.children).stack)) :
    (bindStatement catalog n).run scopes.stack =
      some (.mk n.role n.form n.span n.first bound,
        (declareLet (declareParams scopes n.children) n.form bound).stack) := by
  have hreverse (o : Option (Bytes × Binding)) : o.toList.reverse = o.toList := by
    cases o <;> rfl
  rcases n with ⟨role, form, span, first, children⟩
  simp only [Node.form, Node.children, declareParams_eq_extend] at h
  simp only [Node.form, Node.children, bindStatement, StateT.run_bind, run_declareAll,
    Option.bind_eq_bind, Option.bind_some, declareParams_eq_extend, declareLet_eq_extend,
    run_scopes, h, hreverse]
  rfl

mutual

/-- With a stack the same names are resolved to the same symbols. -/
theorem run_bind (scopes : Scopes) (stance : Stance) : ∀ n : Node, n.SingleBodied →
    (n.bind catalog stance).run scopes.stack = some (n.resolve catalog scopes stance, scopes.stack)
  | .mk role form span first children, .mk body below => by
    cases form with
    | nameReference name symbol =>
      cases stance <;> simp only [resolve] <;> rfl
    | namedParameter | parameter =>
      rw [resolve]
      rfl
    | query =>
      have hpush : push.run scopes.stack = some ((), scopes.push.stack) := rfl
      simp only [bind, resolve, StateT.run_bind, hpush, Option.bind_eq_bind, Option.bind_some,
        run_bindStatements scopes.push children below]
      rw [fst_resolveStatements]
      rfl
    | functionDeclaration view tabular =>
      have hpush : push.run scopes.stack = some ((), scopes.push.stack) := rfl
      obtain ⟨own, hrun, -⟩ := run_bindFunction (declareParams scopes.push children) children below
        (body rfl)
      rw [declareParams_eq_extend] at hrun
      simp only [bind, resolve, StateT.run_bind, hpush, Option.bind_eq_bind, Option.bind_some,
        run_declareAll, declareParams_eq_extend, hrun]
      rfl
    | _ =>
      simp only [bind, resolve, StateT.run_bind, run_bindChildren scopes _ stance 0 children below]
      rfl

theorem run_bindChildren (scopes : Scopes) (form : Form) (stance : Stance) (index : Nat) :
    ∀ ns : List Node, (∀ n ∈ ns, n.SingleBodied) →
      (bindChildren catalog form stance index ns).run scopes.stack =
        some (resolveChildren catalog scopes form stance index ns, scopes.stack)
  | [], _ => by
    rw [resolveChildren]
    rfl
  | n :: ns, h => by
    obtain ⟨hn, hns⟩ := List.forall_mem_cons.1 h
    simp only [bindChildren, resolveChildren, StateT.run_bind, run_scopes, Option.bind_eq_bind,
      Option.bind_some, run_bind scopes _ n hn,
      run_bindChildren scopes form stance (index + 1) ns hns]
    rfl

theorem run_bindFunction (scopes : Scopes) : ∀ ns : List Node, (∀ n ∈ ns, n.SingleBodied) →
    ns.countP (·.form.part = .query) ≤ 1 →
    ∃ own, (bindFunction catalog ns).run scopes.stack =
        some (resolveFunction catalog scopes ns, (scopes.extend own).stack) ∧
      (ns.countP (·.form.part = .query) = 0 → own = [])
  | [], _, _ => by
    rw [resolveFunction]
    exact ⟨[], rfl, fun _ => rfl⟩
  | .mk role form span first children :: ns, h, hone => by
    obtain ⟨hn, hns⟩ := List.forall_mem_cons.1 h
    cases form with
    | query =>
      rw [List.countP_cons_of_pos (by rfl)] at hone ⊢
      obtain ⟨own, hrun, hnil⟩ := run_bindFunction scopes ns hns (by omega)
      obtain rfl := hnil (by omega)
      refine ⟨allDeclarations catalog scopes children, ?_, nofun⟩
      simp only [bindFunction, resolveFunction, StateT.run_bind, Option.bind_eq_bind,
        Option.bind_some, hrun]
      rw [show scopes.extend [] = scopes from rfl, run_bindStatements scopes children hn.children,
        fst_resolveStatements]
      rfl
    | _ =>
      rw [List.countP_cons_of_neg (by nofun)] at hone ⊢
      obtain ⟨own, hrun, hnil⟩ := run_bindFunction scopes ns hns hone
      refine ⟨own, ?_, hnil⟩
      simp only [bindFunction, resolveFunction, StateT.run_bind, Option.bind_eq_bind,
        Option.bind_some, run_bindChildren scopes _ .scalar 0 children hn.children, hrun]
      rfl

theorem run_bindStatements (scopes : Scopes) : ∀ ns : List Node, (∀ n ∈ ns, n.SingleBodied) →
    (bindStatements catalog ns).run scopes.stack =
      some ((resolveStatements catalog scopes ns).2, (resolveStatements catalog scopes ns).1.stack)
  | [], _ => by
    rw [resolveStatements]
    rfl
  | .mk role form span first children :: ns, h => by
    obtain ⟨hn, hns⟩ := List.forall_mem_cons.1 h
    have hstatement := run_bindStatement catalog (n := .mk role form span first children)
      (run_bindChildren (declareParams scopes children) form .scalar 0 children hn.children)
    simp only [Node.form, Node.children] at hstatement
    simp only [bindStatements, resolveStatements, StateT.run_bind, Option.bind_eq_bind,
      Option.bind_some, hstatement, run_bindStatements _ ns hns]
    rfl

end

end Node
end KustoFacts
