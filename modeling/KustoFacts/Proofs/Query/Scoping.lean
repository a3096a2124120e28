import KustoFacts.Proofs.Query.Binder
import KustoFacts.Proofs.Query.Parsed
import Mathlib.Data.Option.Basic

/-!
    Lexical scoping. Every reference that resolving visits stands in scopes that are made of what
    was declared before it in the blocks and functions around it, and nothing else: it gets the
    latest declaration of its name in the nearest of them that has one. -/

namespace KustoFacts

/-! ### Lookup -/

namespace Scope

variable {scope : Scope} {name : Bytes} {binding : Binding}

/-- No declaration of a scope is of a name. -/
def Lacks (scope : Scope) (name : Bytes) : Prop := ∀ d ∈ scope, d.1 ≠ name

theorem lookup_eq_none_iff : scope.lookup name = none ↔ scope.Lacks name := by
  simp only [List.lookup_eq_none_iff, Lacks, bne_iff_ne, ne_comm]

theorem lookup_eq_some_iff : scope.lookup name = some binding ↔
    ∃ later earlier : Scope, scope = later ++ (name, binding) :: earlier ∧ later.Lacks name := by
  simp only [List.lookup_eq_some_iff, Lacks, bne_iff_ne, ne_comm]

end Scope

namespace Scopes

variable {scopes : Scopes} {name : Bytes} {binding : Binding}

/-- A binding is the latest of its name in the nearest scope that has one. -/
def Latest (scopes : Scopes) (name : Bytes) (binding : Binding) : Prop :=
  ∃ (nearer : List Scope) (later earlier : Scope) (farther : List Scope),
    scopes.stack = nearer ++ (later ++ (name, binding) :: earlier) :: farther ∧
      (∀ s ∈ nearer, s.Lacks name) ∧ later.Lacks name

/-- Lookup finds the latest declaration in the nearest scope that has one. -/
theorem find?_eq_some_iff : scopes.find? name = some binding ↔ scopes.Latest name binding := by
  refine List.findSome?_eq_some_iff.trans ?_
  constructor
  · rintro ⟨nearer, scope, farther, hstack, hfound, hnearer⟩
    obtain ⟨later, earlier, rfl, hlater⟩ := Scope.lookup_eq_some_iff.1 hfound
    exact ⟨nearer, later, earlier, farther, hstack,
      fun s hs => Scope.lookup_eq_none_iff.1 (hnearer s hs), hlater⟩
  · rintro ⟨nearer, later, earlier, farther, hstack, hnearer, hlater⟩
    exact ⟨nearer, _, farther, hstack, Scope.lookup_eq_some_iff.2 ⟨later, earlier, rfl, hlater⟩,
      fun s hs => Scope.lookup_eq_none_iff.2 (hnearer s hs)⟩

/-- Lookup finds nothing where no scope has a declaration. -/
theorem find?_eq_none_iff : scopes.find? name = none ↔ ∀ s ∈ scopes.stack, s.Lacks name := by
  refine List.findSome?_eq_none_iff.trans ?_
  simp only [Scope.lookup_eq_none_iff, stack]

/-- Declarations in the innermost scope come before all others. -/
theorem find?_extend (scopes : Scopes) (own : Scope) (name : Bytes) :
    (scopes.extend own).find? name = (own.lookup name).or (scopes.find? name) := by
  simp only [find?, extend, List.findSome?_cons, List.lookup_append]
  cases own.lookup name <;> rfl

/-- Declarations of other names do not count. -/
theorem find?_extend_of_lacks {own : Scope} (h : own.Lacks name) :
    (scopes.extend own).find? name = scopes.find? name := by
  rw [find?_extend, Scope.lookup_eq_none_iff.2 h, Option.none_or]

end Scopes

/-! ### Visits -/

/-- Whether the children of a node stand in the scopes that the node stands in. -/
def Form.sharesScopes : Form → Bool
  | .nameReference _ _ | .namedParameter _ | .parameter _ _ _ | .query
  | .functionDeclaration _ _ => false
  | _ => true

namespace Node

variable {catalog : TableNames} {scopes scopes' : Scopes} {stance stance' : Stance} {n m : Node}
  {path path' : List Nat}

/-- The node that child indices lead to. -/
def at? : List Nat → Node → Option Node
  | [], n => some n
  | i :: path, n => n.children[i]?.bind (at? path)

@[simp] theorem at?_nil (n : Node) : n.at? [] = some n := rfl

@[simp] theorem at?_cons (role : Role) (form : Form) (span : Span) (first : Token)
    (children : List Node) (i : Nat) (path : List Nat) :
    (mk role form span first children).at? (i :: path) = children[i]?.bind (at? path) := rfl

theorem at?_append (path path' : List Nat) (n : Node) :
    n.at? (path ++ path') = (n.at? path).bind (at? path') := by
  induction path generalizing n with
  | nil => rfl
  | cons i path ih =>
    rw [List.cons_append, at?, at?]
    cases n.children[i]? with
    | none => rfl
    | some c => exact ih c

/-- The scopes in a statement after others. -/
def scopesIn (catalog : TableNames) (scopes : Scopes) (before : List Node) (n : Node) : Scopes :=
  declareParams (scopes.extend (allDeclarations catalog scopes before)) n.children

/-- From a node that stands in some scopes to the next one below it that is resolved by itself, and
    the scopes and the stance of that one. -/
inductive Enters (catalog : TableNames) (scopes : Scopes) (stance : Stance) :
    Node → List Nat → Scopes → Stance → Node → Prop where
  /-- A child shares the scopes of its parent. -/
  | child {role : Role} {form : Form} {span : Span} {first : Token} {children : List Node}
      {i : Nat} {c : Node} (hform : form.sharesScopes = true) (hc : children[i]? = some c) :
      Enters catalog scopes stance (.mk role form span first children) [i] scopes
        (childStance scopes form stance i c) c
  /-- A block opens a scope, in which the statements before have declared their names. -/
  | statement {role : Role} {span : Span} {first : Token} {children : List Node} {i j : Nat}
      {s c : Node} (hs : children[i]? = some s) (hc : s.children[j]? = some c) :
      Enters catalog scopes stance (.mk role .query span first children) [i, j]
        (scopesIn catalog scopes.push (children.take i) s)
        (childStance (scopesIn catalog scopes.push (children.take i) s) s.form .scalar j c) c
  /-- A function opens a scope in which its parameters are declared; their defaults stand in it. -/
  | default {role : Role} {view tabular : Bool} {span : Span} {first : Token}
      {children : List Node} {i j : Nat} {p c : Node} (hp : children[i]? = some p)
      (hform : p.form ≠ .query) (hc : p.children[j]? = some c) :
      Enters catalog scopes stance
        (.mk role (.functionDeclaration view tabular) span first children) [i, j]
        (declareParams scopes.push children)
        (childStance (declareParams scopes.push children) p.form .scalar j c) c
  /-- The statements of a function's body declare their names in the same scope. -/
  | body {role : Role} {view tabular : Bool} {span : Span} {first : Token} {children : List Node}
      {i j k : Nat} {b s c : Node} (hb : children[i]? = some b) (hform : b.form = .query)
      (hs : b.children[j]? = some s) (hc : s.children[k]? = some c) :
      Enters catalog scopes stance
        (.mk role (.functionDeclaration view tabular) span first children) [i, j, k]
        (scopesIn catalog (declareParams scopes.push children) (b.children.take j) s)
        (childStance (scopesIn catalog (declareParams scopes.push children) (b.children.take j) s)
          s.form .scalar k c) c

/-- The nodes that are resolved when a node is, each with the path to it, the scopes that it stands
    in and its stance. -/
inductive Visits (catalog : TableNames) : Scopes → Stance → Node → List Nat → Scopes → Stance →
    Node → Prop where
  | here (scopes : Scopes) (stance : Stance) (n : Node) :
      Visits catalog scopes stance n [] scopes stance n
  | step {scopes scopes' scopes'' : Scopes} {stance stance' stance'' : Stance} {n m k : Node}
      {path path' : List Nat} (h : Enters catalog scopes stance n path scopes' stance' m)
      (hrest : Visits catalog scopes' stance' m path' scopes'' stance'' k) :
      Visits catalog scopes stance n (path ++ path') scopes'' stance'' k

/-- The node that a path leads to, with its scopes and its stance, if it is entered by that path. -/
def enter? (catalog : TableNames) (scopes : Scopes) (stance : Stance) :
    Node → List Nat → Option (Scopes × Stance × Node)
  | .mk _ form _ _ children, [i] => do
    guard form.sharesScopes
    let c ← children[i]?
    return (scopes, childStance scopes form stance i c, c)
  | .mk _ .query _ _ children, [i, j] => do
    let s ← children[i]?
    let c ← s.children[j]?
    let inside := scopesIn catalog scopes.push (children.take i) s
    return (inside, childStance inside s.form .scalar j c, c)
  | .mk _ (.functionDeclaration _ _) _ _ children, [i, j] => do
    let p ← children[i]?
    guard (p.form ≠ .query)
    let c ← p.children[j]?
    let own := declareParams scopes.push children
    return (own, childStance own p.form .scalar j c, c)
  | .mk _ (.functionDeclaration _ _) _ _ children, [i, j, k] => do
    let b ← children[i]?
    guard (b.form = .query)
    let s ← b.children[j]?
    let c ← s.children[k]?
    let inside := scopesIn catalog (declareParams scopes.push children) (b.children.take j) s
    return (inside, childStance inside s.form .scalar k c, c)
  | _, _ => none

theorem enter?_eq_some_iff : enter? catalog scopes stance n path = some (scopes', stance', m) ↔
    Enters catalog scopes stance n path scopes' stance' m := by
  constructor
  · fun_cases enter? catalog scopes stance n path <;> intro h
    case case5 => cases h
    all_goals simp only [Option.pure_def, Option.bind_eq_bind, Option.bind_eq_some_iff,
      Option.guard_eq_some', Option.some.injEq, Prod.mk.injEq] at h
    case case1 =>
      obtain ⟨-, hform, c, hc, rfl, rfl, rfl⟩ := h
      exact .child hform hc
    case case2 =>
      obtain ⟨s, hs, c, hc, rfl, rfl, rfl⟩ := h
      exact .statement hs hc
    case case3 =>
      obtain ⟨p, hp, -, hform, c, hc, rfl, rfl, rfl⟩ := h
      exact .default hp hform hc
    case case4 =>
      obtain ⟨b, hb, -, hform, s, hs, c, hc, rfl, rfl, rfl⟩ := h
      exact .body hb hform hs hc
  · intro h
    cases h <;> simp [enter?, *]

/-- The node that paths lead to one after the other, each of them to a node that is entered. -/
def visit? (catalog : TableNames) :
    Scopes → Stance → Node → List (List Nat) → Option (Scopes × Stance × Node)
  | scopes, stance, n, [] => some (scopes, stance, n)
  | scopes, stance, n, path :: paths =>
    (n.enter? catalog scopes stance path).bind fun c => visit? catalog c.1 c.2.1 c.2.2 paths

/-- A node is visited by what such paths make up. -/
theorem visits_iff : n.Visits catalog scopes stance path scopes' stance' m ↔
    ∃ paths, path = paths.flatten ∧
      visit? catalog scopes stance n paths = some (scopes', stance', m) := by
  constructor
  · intro h
    induction h with
    | here => exact ⟨[], rfl, rfl⟩
    | @step _ _ _ _ _ _ _ _ _ path _ h _ ih =>
      obtain ⟨paths, rfl, hpaths⟩ := ih
      refine ⟨path :: paths, rfl, ?_⟩
      rw [visit?, enter?_eq_some_iff.2 h, Option.bind_some, hpaths]
  · rintro ⟨paths, rfl, h⟩
    induction paths generalizing scopes stance n with
    | nil =>
      cases h
      exact .here ..
    | cons path paths ih =>
      obtain ⟨c, hc, hpaths⟩ := Option.bind_eq_some_iff.1 h
      exact .step (enter?_eq_some_iff.1 hc) (ih hpaths)

theorem getElem?_resolveChildren (form : Form) (index : Nat) (ns : List Node) (i : Nat) :
    (resolveChildren catalog scopes form stance index ns)[i]? =
      ns[i]?.map fun c =>
        c.resolve catalog scopes (childStance scopes form stance (index + i) c) := by
  induction ns generalizing index i with
  | nil =>
    rw [resolveChildren]
    rfl
  | cons n ns ih =>
    rw [resolveChildren]
    cases i with
    | zero => rfl
    | succ i =>
      rw [List.getElem?_cons_succ, List.getElem?_cons_succ, ih, Nat.add_right_comm]
      rfl

/-- Each statement is resolved in the scopes that those before it have left. -/
theorem getElem?_resolveStatements (ns : List Node) (i : Nat) :
    (resolveStatements catalog scopes ns).2[i]? = ns[i]?.map fun s =>
      .mk s.role s.form s.span s.first (resolveChildren catalog
        (scopesIn catalog scopes (ns.take i) s) s.form .scalar 0 s.children) := by
  induction ns generalizing scopes i with
  | nil =>
    rw [resolveStatements]
    rfl
  | cons n ns ih =>
    rcases n with ⟨role, form, span, first, children⟩
    have hdeclared := declareLet_declareParams catalog scopes (.mk role form span first children)
    simp only [Node.children, Node.form] at hdeclared
    rw [resolveStatements, hdeclared]
    cases i with
    | zero => rfl
    | succ i =>
      simp only [List.getElem?_cons_succ, ih, List.take_succ_cons]
      congr 1
      funext s
      simp only [scopesIn, allDeclarations, Scopes.extend, List.append_assoc]

/-- Each child of a function is resolved in the scope of the function. -/
theorem getElem?_resolveFunction (ns : List Node) (i : Nat) :
    (resolveFunction catalog scopes ns).2[i]? = ns[i]?.map fun c =>
      .mk c.role c.form c.span c.first
        (if c.form = .query then (resolveStatements catalog scopes c.children).2
          else resolveChildren catalog scopes c.form .scalar 0 c.children) := by
  induction ns generalizing i with
  | nil =>
    rw [resolveFunction]
    rfl
  | cons n ns ih =>
    rcases n with ⟨role, form, span, first, children⟩
    cases i with
    | zero => cases form <;> simp only [resolveFunction] <;> rfl
    | succ i =>
      rw [List.getElem?_cons_succ, ← ih]
      cases form <;> simp only [resolveFunction] <;> rfl

theorem Enters.resolved (h : Enters catalog scopes stance n path scopes' stance' m) :
    (n.resolve catalog scopes stance).at? path = some (m.resolve catalog scopes' stance') := by
  cases h with
  | @child role form span first children i c hform hc =>
    have hresolve : (Node.mk role form span first children).resolve catalog scopes stance =
        .mk role form span first (resolveChildren catalog scopes form stance 0 children) := by
      cases form with
      | nameReference | namedParameter | parameter | query | functionDeclaration => cases hform
      | _ => simp only [resolve]
    simp only [hresolve, at?_cons, at?_nil, getElem?_resolveChildren, hc, Option.map_some,
      Option.bind_some, Nat.zero_add]
  | statement hs hc =>
    simp only [resolve, at?_cons, at?_nil, getElem?_resolveStatements, hs,
      getElem?_resolveChildren, hc, Option.map_some, Option.bind_some, Nat.zero_add]
  | default hp hform hc =>
    simp only [resolve, at?_cons, at?_nil, getElem?_resolveFunction, hp, if_neg hform,
      getElem?_resolveChildren, hc, Option.map_some, Option.bind_some, Nat.zero_add]
  | body hb hform hs hc =>
    simp only [resolve, at?_cons, at?_nil, getElem?_resolveFunction, hb, if_pos hform,
      getElem?_resolveStatements, hs, getElem?_resolveChildren, hc, Option.map_some,
      Option.bind_some, Nat.zero_add]

/-- What is resolved below a node stands resolved below the resolved node. -/
theorem Visits.resolved (h : Visits catalog scopes stance n path scopes' stance' m) :
    (n.resolve catalog scopes stance).at? path = some (m.resolve catalog scopes' stance') := by
  induction h with
  | here => rfl
  | step h _ ih => rw [at?_append, h.resolved, Option.bind_some, ih]

/-- Towards a node of another part there is a child. -/
theorem WellFormed.toward {text : Bytes} (hn : n.WellFormed text) (hpath : n.at? path = some m)
    (hne : n.form.part ≠ m.form.part) :
    ∃ j c rest, path = j :: rest ∧ n.children[j]? = some c ∧ c.WellFormed text ∧
      c.at? rest = some m := by
  rcases path with _ | ⟨j, rest⟩
  · cases hpath
    exact absurd rfl hne
  · obtain ⟨c, hc, hrest⟩ := Option.bind_eq_some_iff.1 hpath
    exact ⟨j, c, rest, rfl, hc, hn.children c (List.mem_of_getElem? hc), hrest⟩

/-- Towards an expression below a node there is one that is entered, unless the node is an option or
    a parameter. -/
theorem enters_toward {text : Bytes} {i : Nat} (scopes : Scopes) (stance : Stance)
    (hn : n.WellFormed text) (hpath : n.at? (i :: path) = some m)
    (hm : m.form.part = .expression)
    (hskip : ¬(n.form.part = .setting ∨ n.form.part = .parameter)) :
    ∃ before after scopes' stance' c, i :: path = before ++ after ∧ before ≠ [] ∧
      Enters catalog scopes stance n before scopes' stance' c ∧ c.WellFormed text ∧
      c.at? after = some m := by
  rcases n with ⟨role, form, span, first, children⟩
  rw [at?_cons] at hpath
  obtain ⟨c, hc, hpath⟩ := Option.bind_eq_some_iff.1 hpath
  have hwell := hn.children c (List.mem_of_getElem? hc)
  have hadmits := hn.admits
  have hslot : c.slot ∈ children.map slot := List.mem_map_of_mem (List.mem_of_getElem? hc)
  cases form with
  | namedParameter => exact absurd (.inl rfl) hskip
  | parameter => exact absurd (.inr rfl) hskip
  | nameReference =>
    have hnil : children.map slot = [] := hadmits
    rw [hnil] at hslot
    cases hslot
  | query =>
    have hpart : c.form.part = .statement := (hadmits c.slot hslot).2
    obtain ⟨j, d, rest, rfl, hd, hwell, hrest⟩ :=
      hwell.toward hpath (by rw [hpart, hm]; decide)
    exact ⟨[i, j], rest, _, _, d, rfl, List.cons_ne_nil _ _, .statement hc hd, hwell, hrest⟩
  | functionDeclaration =>
    obtain ⟨params, hparams, hslots⟩ := hadmits
    have hslots : children.map slot = params ++ [(.body, .query)] := hslots
    have hpart : c.form.part = .parameter ∨ c.form.part = .query := by
      rw [hslots] at hslot
      rcases List.mem_append.1 hslot with h | h
      · exact .inl (hparams c.slot h).2
      · exact .inr (congrArg Prod.snd (List.mem_singleton.1 h))
    obtain ⟨j, d, rest, rfl, hd, hbelow, hrest⟩ :=
      hwell.toward hpath (by rcases hpart with h | h <;> rw [h, hm] <;> decide)
    by_cases hform : c.form = .query
    · have hstatement : d.form.part = .statement := by
        have hadmits := hwell.admits
        rw [hform] at hadmits
        exact (hadmits d.slot (List.mem_map_of_mem (List.mem_of_getElem? hd))).2
      obtain ⟨k, e, rest, rfl, he, hwell, hrest⟩ :=
        hbelow.toward hrest (by rw [hstatement, hm]; decide)
      exact ⟨[i, j, k], rest, _, _, e, rfl, List.cons_ne_nil _ _, .body hc hform hd he, hwell,
        hrest⟩
    · exact ⟨[i, j], rest, _, _, d, rfl, List.cons_ne_nil _ _, .default hc hform hd, hbelow, hrest⟩
  | _ => exact ⟨[i], path, _, _, c, rfl, List.cons_ne_nil _ _, .child rfl hc, hwell, hpath⟩

/-- Every expression of a tree is visited, unless it stands in an option of an operator or in the
    default of a directive's parameter, which are no references. -/
theorem visits_or_skipped {text : Bytes} (scopes : Scopes) (stance : Stance)
    (hn : n.WellFormed text) (hpath : n.at? path = some m) (hm : m.form.part = .expression) :
    (∃ scopes' stance', n.Visits catalog scopes stance path scopes' stance' m) ∨
      ∃ before after scopes' stance' k, path = before ++ after ∧
        n.Visits catalog scopes stance before scopes' stance' k ∧
        (k.form.part = .setting ∨ k.form.part = .parameter) := by
  induction hlength : path.length using Nat.strongRecOn generalizing n path scopes stance with
  | ind length ih =>
    by_cases hskip : n.form.part = .setting ∨ n.form.part = .parameter
    · exact .inr ⟨[], path, scopes, stance, n, rfl, .here .., hskip⟩
    rcases path with _ | ⟨i, path⟩
    · cases hpath
      exact .inl ⟨scopes, stance, .here ..⟩
    obtain ⟨before, after, scopes', stance', c, hsplit, hne, henters, hwell, hafter⟩ :=
      enters_toward scopes stance hn hpath hm hskip
    rw [hsplit] at hlength ⊢
    have hlt : after.length < length := by
      rw [← hlength, List.length_append]
      exact Nat.lt_add_of_pos_left (List.length_pos_iff.2 hne)
    rcases ih _ hlt scopes' stance' hwell hafter rfl with
      ⟨s, t, hvisits⟩ | ⟨before', after', s, t, k, rfl, hvisits, hk⟩
    · exact .inl ⟨s, t, .step henters hvisits⟩
    · refine .inr ⟨before ++ before', after', s, t, k, ?_, .step henters hvisits, hk⟩
      rw [List.append_assoc]

/-- What a reference gets: the symbol of the latest declaration of its name in the nearest scope
    that has one, or else one that depends on the catalog and on where it stands. -/
theorem resolveName_cases (catalog : TableNames) (scopes : Scopes) (tabular : Bool) (name : Bytes) :
    (∃ binding, scopes.Latest name binding ∧
      resolveName catalog scopes tabular name = binding.symbol) ∨
    (∀ s ∈ scopes.stack, s.Lacks name) ∧ resolveName catalog scopes tabular name =
      if catalog.has name || tabular then .table else .unknown := by
  rw [resolveName]
  rcases hfind : scopes.find? name with _ | binding
  · exact .inr ⟨Scopes.find?_eq_none_iff.1 hfind, rfl⟩
  · exact .inl ⟨binding, Scopes.find?_eq_some_iff.1 hfind, rfl⟩

/-- Resolving leaves the name of a reference, and gives it its symbol where it is no selector. -/
theorem resolve_reference {role : Role} {name : Bytes} {symbol : Symbol} {span : Span}
    {first : Token} {children : List Node} (h : ∀ tabular, stance ≠ .member tabular) :
    (mk role (.nameReference name symbol) span first children).resolve catalog scopes stance =
      .mk role (.nameReference name (resolveName catalog scopes stance.isTabular name)) span first
        children := by
  cases stance with
  | member tabular => exact absurd rfl (h tabular)
  | _ => simp only [resolve]

/-! ### Scopes that agree -/

end Node

/-- Scopes in which every name is found to be the same. -/
def Scopes.Agree (scopes scopes' : Scopes) : Prop := ∀ name, scopes.find? name = scopes'.find? name

namespace Scopes.Agree

variable {scopes scopes' : Scopes}

theorem push (h : Agree scopes scopes') : Agree scopes.push scopes'.push := h

theorem extend (h : Agree scopes scopes') (own : Scope) :
    Agree (scopes.extend own) (scopes'.extend own) := fun name => by
  rw [find?_extend, find?_extend, h name]

end Scopes.Agree

namespace Node

variable {scopes scopes' : Scopes}

theorem childStance_congr (h : scopes.Agree scopes') (form : Form) (stance : Stance) (index : Nat)
    (n : Node) :
    childStance scopes form stance index n = childStance scopes' form stance index n := by
  cases form with
  | functionCall name => simp only [childStance, h name]
  | _ => rfl

theorem valueSymbol_congr (h : scopes.Agree scopes') (n : Node) :
    n.valueSymbol scopes = n.valueSymbol scopes' := by
  rcases n with ⟨role, form, span, first, children⟩
  cases form with
  | parenthesized =>
    rcases children with _ | ⟨inner, _ | ⟨c, cs⟩⟩
    · rfl
    · exact valueSymbol_congr h inner
    · rfl
  | functionCall name => simp only [valueSymbol, h name]
  | path =>
    rcases children with _ | ⟨c, _ | ⟨⟨role', form', span', first', children'⟩, _ | ⟨d, ds⟩⟩⟩
    · rfl
    · rfl
    · cases form' <;> rfl
    · cases form' <;> rfl
  | _ => rfl

theorem letDeclaration?_congr (h : scopes.Agree scopes') (form : Form) (children : List Node) :
    letDeclaration? scopes form children = letDeclaration? scopes' form children := by
  have hbinding (value : Node) : bindingOf scopes value = bindingOf scopes' value := by
    simp only [bindingOf, valueSymbol_congr h]
  simp only [letDeclaration?, hbinding]

theorem yieldsTable_congr (h : scopes.Agree scopes') (ns : List Node) :
    yieldsTable scopes ns = yieldsTable scopes' ns := by
  simp only [yieldsTable, valueSymbol_congr h]

variable (catalog : TableNames)

mutual

/-- What names are resolved to depends only on what they are found to be. -/
theorem resolve_congr {scopes scopes' : Scopes} (h : scopes.Agree scopes') (stance : Stance) :
    ∀ n : Node, n.resolve catalog scopes stance = n.resolve catalog scopes' stance
  | .mk role form span first children => by
    cases form with
    | nameReference name symbol =>
      cases stance <;> simp only [resolve, resolveName, h name]
    | namedParameter | parameter => simp only [resolve]
    | query => simp only [resolve, (resolveStatements_congr h.push children).1]
    | functionDeclaration view tabular =>
      have hinner : (declareParams scopes.push children).Agree
          (declareParams scopes'.push children) := by
        simpa only [declareParams_eq_extend] using h.push.extend _
      simp only [resolve, resolveFunction_congr hinner children]
    | _ => simp only [resolve, resolveChildren_congr h]

theorem resolveChildren_congr {scopes scopes' : Scopes} (h : scopes.Agree scopes') (form : Form)
    (stance : Stance) (index : Nat) : ∀ ns : List Node,
      resolveChildren catalog scopes form stance index ns =
        resolveChildren catalog scopes' form stance index ns
  | [] => by simp only [resolveChildren]
  | n :: ns => by
    simp only [resolveChildren, childStance_congr h, resolve_congr h _ n,
      resolveChildren_congr h form stance (index + 1) ns]

theorem resolveFunction_congr {scopes scopes' : Scopes} (h : scopes.Agree scopes') :
    ∀ ns : List Node, resolveFunction catalog scopes ns = resolveFunction catalog scopes' ns
  | [] => by simp only [resolveFunction]
  | .mk role form span first children :: ns => by
    have hns := resolveFunction_congr h ns
    cases form with
    | query =>
      obtain ⟨hstatements, hagree⟩ := resolveStatements_congr h children
      simp only [resolveFunction, hns, hstatements, yieldsTable_congr hagree]
    | _ => simp only [resolveFunction, hns, resolveChildren_congr h]

theorem resolveStatements_congr {scopes scopes' : Scopes} (h : scopes.Agree scopes') :
    ∀ ns : List Node, (resolveStatements catalog scopes ns).2 =
        (resolveStatements catalog scopes' ns).2 ∧
      (resolveStatements catalog scopes ns).1.Agree (resolveStatements catalog scopes' ns).1
  | [] => by
    simp only [resolveStatements, true_and]
    exact h
  | .mk role form span first children :: ns => by
    have hinside := h.extend (children.filterMap paramDeclaration?).reverse
    have hrest (own : Scope) := resolveStatements_congr (hinside.extend own) ns
    simp only [resolveStatements, declareParams_eq_extend, declareLet_eq_extend,
      letDeclaration?_congr hinside, resolveChildren_congr hinside]
    exact ⟨by rw [(hrest _).1], (hrest _).2⟩

end

end Node

/-- The names a statement declares itself: that of a `let` statement, and its parameters. -/
def Node.ownNames (n : Node) : List Bytes :=
  (match n.form with
    | .letStatement name => [name]
    | _ => []) ++ (n.children.filterMap paramDeclaration?).map Prod.fst

/-- Of the statements of a tree only `declare` has parameters. -/
theorem Node.Is.params {text : Bytes} {n : Node} (h : n.Is text .statement)
    (hparams : n.children.filterMap paramDeclaration? ≠ []) :
    ∃ name, n.form = .setStatement (bytes "declare") name := by
  by_contra hnone
  refine hparams (List.filterMap_eq_nil_iff.2 fun c hc => ?_)
  have hpart : c.form.part ≠ .parameter := by
    by_cases hdeclares : n.form.declares = false
    · exact not_parameter_of_declares h hdeclares c hc
    have hadmits := h.1.admits
    have hslot : c.slot ∈ n.children.map slot := List.mem_map_of_mem hc
    cases hform : n.form with
    | letStatement name =>
      rw [hform] at hadmits
      obtain ⟨p, hp, hslots⟩ := hadmits
      rw [hslots] at hslot
      intro hpart
      rw [slot, hpart] at hslot
      rcases hp with (rfl | rfl) | rfl <;> simp at hslot
    | setStatement keyword name =>
      rw [hform, Form.declares, decide_eq_false_iff_not, not_not] at hdeclares
      exact absurd ⟨name, by rw [hform, hdeclares]⟩ hnone
    | _ =>
      rw [hform] at hdeclares
      exact absurd rfl hdeclares
  rw [paramDeclaration?]
  cases hform : c.form with
  | parameter => exact absurd (by rw [hform]; rfl) hpart
  | _ => rfl

/-- A statement declares its parameters, resolves its children, and declares its own name. -/
theorem Node.run_statement (catalog : TableNames) (n : Node) (scopes : Scopes) :
    ∃ bound : List Node,
      let inside := scopes.extend (n.children.filterMap paramDeclaration?).reverse
      (bindChildren catalog n.form .scalar 0 n.children).run inside.stack =
          some (bound, inside.stack) ∧
        (bindStatement catalog n).run scopes.stack =
          some (.mk n.role n.form n.span n.first bound,
            (inside.extend (letDeclaration? inside n.form bound).toList).stack) := by
  obtain ⟨bound, hbound⟩ := keeps_bindChildren catalog n.form .scalar 0 n.children
    (scopes.extend (n.children.filterMap paramDeclaration?).reverse)
  refine ⟨bound, hbound, ?_⟩
  rw [← declareParams_eq_extend] at hbound ⊢
  rw [run_bindStatement catalog hbound, declareLet_eq_extend]

/-- What a statement declares are its own names. -/
theorem Node.find?_bindStatement {catalog : TableNames} {n m : Node} {scopes after : Scopes}
    {name : Bytes} (h : (bindStatement catalog n).run scopes.stack = some (m, after.stack))
    (hname : name ∉ n.ownNames) : after.find? name = scopes.find? name := by
  obtain ⟨bound, -, hrun⟩ := run_statement catalog n scopes
  rw [hrun, Option.some.injEq, Prod.mk.injEq] at h
  rw [ownNames, List.mem_append, not_or] at hname
  obtain ⟨hlet, hparams⟩ := hname
  have hstack : ∀ {a b : Scopes}, a.stack = b.stack → a = b := fun {a b} h => by
    cases a
    cases b
    cases h
    rfl
  rw [← hstack h.2, Scopes.find?_extend_of_lacks, Scopes.find?_extend_of_lacks]
  · intro d hd
    rintro rfl
    exact hparams (List.mem_map_of_mem (List.mem_reverse.1 hd))
  · intro d hd
    rintro rfl
    rw [Option.mem_toList] at hd
    unfold letDeclaration? at hd
    split at hd
    next declared value hform _ =>
      cases hd
      rw [hform] at hlet
      exact hlet List.mem_cons_self
    next => cases hd

/-- Names are scoped lexically. -/
structure LexicallyScoped (catalog : TableNames) : Prop where
  /-- Whatever node is resolved, the stack of scopes is left as it was; the result is that of
      `resolve`. -/
  keeps : ∀ (n : Node) (stance : Stance) (scopes : Scopes), ∃ m : Node,
    (n.bind catalog stance).run scopes.stack = some (m, scopes.stack) ∧
      (n.SingleBodied → m = n.resolve catalog scopes stance)
  /-- A statement changes the innermost scope only: it declares its parameters, then its children
      are resolved, and then, if it is a `let` statement, it declares its name. -/
  declares : ∀ (n : Node) (scopes : Scopes), ∃ bound : List Node,
    let inside := scopes.extend (n.children.filterMap Node.paramDeclaration?).reverse
    (Node.bindChildren catalog n.form .scalar 0 n.children).run inside.stack =
        some (bound, inside.stack) ∧
      (Node.bindStatement catalog n).run scopes.stack =
        some (.mk n.role n.form n.span n.first bound,
          (inside.extend (Node.letDeclaration? inside n.form bound).toList).stack)
  /-- Of the statements of a tree only `declare` has parameters. -/
  params : ∀ {text : Bytes} {n : Node}, n.Is text .statement →
    n.children.filterMap Node.paramDeclaration? ≠ [] →
    ∃ name, n.form = .setStatement (bytes "declare") name
  /-- Every reference that is visited and is no selector gets the symbol of the latest declaration
      in the nearest scope around it, or else that of a table or the unknown one. -/
  references : ∀ {scopes scopes' : Scopes} {stance stance' : Stance} {n : Node} {path : List Nat}
    {role : Role} {name : Bytes} {symbol : Symbol} {span : Span} {first : Token}
    {children : List Node},
    n.Visits catalog scopes stance path scopes' stance'
      (.mk role (.nameReference name symbol) span first children) →
    (∀ tabular, stance' ≠ .member tabular) →
    ∃ found, (n.resolve catalog scopes stance).at? path =
        some (.mk role (.nameReference name found) span first children) ∧
      ((∃ binding, scopes'.Latest name binding ∧ found = binding.symbol) ∨
        (∀ s ∈ scopes'.stack, s.Lacks name) ∧
          found = if catalog.has name || stance'.isTabular then .table else .unknown)
  /-- Every reference of a tree is visited, except in options and the defaults of directives. -/
  visited : ∀ {text : Bytes} {n m : Node} {path : List Nat} (scopes : Scopes) (stance : Stance),
    n.WellFormed text → n.at? path = some m → m.form.part = .expression →
    (∃ scopes' stance', n.Visits catalog scopes stance path scopes' stance' m) ∨
      ∃ before after scopes' stance' k, path = before ++ after ∧
        n.Visits catalog scopes stance before scopes' stance' k ∧
        (k.form.part = .setting ∨ k.form.part = .parameter)
  /-- After a statement every name that it does not declare itself is found to be what it was
      before, whatever was declared in functions and blocks inside. -/
  hidden : ∀ {n m : Node} {scopes after : Scopes} {name : Bytes},
    (Node.bindStatement catalog n).run scopes.stack = some (m, after.stack) →
    name ∉ n.ownNames → after.find? name = scopes.find? name
  /-- The statements of a whole text are resolved in a single scope. -/
  whole : ∀ {text : Bytes} {p : Parsed}, parse catalog text = .ok p →
    ∃ root : Node, root.WellFormed p.text ∧ p.root = root.resolve catalog .top .scalar ∧
      ∃ after, (Node.bindStatements catalog root.children).run Scopes.top.stack =
        some (p.root.children, after)

/-- Names are scoped lexically, whatever tables are known. -/
theorem lexicallyScoped (catalog : TableNames) : LexicallyScoped catalog where
  keeps n stance scopes := by
    obtain ⟨m, hm⟩ := Node.keeps_bind catalog stance n scopes
    refine ⟨m, hm, fun hn => ?_⟩
    have hresolve := Node.run_bind catalog scopes stance n hn
    rw [hm] at hresolve
    exact congrArg Prod.fst (Option.some.inj hresolve)
  declares := Node.run_statement catalog
  params := Node.Is.params
  references h hmember :=
    ⟨_, h.resolved.trans (congrArg some (Node.resolve_reference hmember)),
      Node.resolveName_cases ..⟩
  visited scopes stance := Node.visits_or_skipped scopes stance
  hidden := Node.find?_bindStatement
  whole h := by
    obtain ⟨read, hread, rfl⟩ := parse_ok h
    obtain ⟨hwell, hpart⟩ := is_parseTokens hread
    refine ⟨_, hwell, rfl, ?_⟩
    rw [Parsed.ofTokens]
    dsimp only
    generalize (parseTokens (Parsed.withoutMark _) read).1 = root at hwell hpart ⊢
    rcases root with ⟨role, form, span, first, children⟩
    obtain rfl : form = .query := by cases form <;> first | rfl | cases hpart
    have hagree : Scopes.top.Agree Scopes.top.push := fun _ => rfl
    have hrun := Node.run_bindStatements catalog .top children
      fun c hc => (hwell.children c hc).singleBodied
    rw [(Node.resolveStatements_congr catalog hagree children).1] at hrun
    simp only [Node.resolve]
    exact ⟨_, hrun⟩

/-- In a function a parameter hides a table, and not after it. -/
theorem lexicallyScoped_parameter : ∃ r root inside outside,
    tokenize (bytes "let x=T;let f=(x:string){x};x") = .ok r ∧
      (parseTokens (bytes "let x=T;let f=(x:string){x};x") r).1 = root ∧
      (root.resolve .empty .top .scalar).at? [1, 1, 1, 0, 0] = some inside ∧
      inside.form = .nameReference (bytes "x") .scalar ∧
      (root.resolve .empty .top .scalar).at? [2, 0] = some outside ∧
      outside.form = .nameReference (bytes "x") .table := by
  -- the symbol of a reference from what lookup finds where it stands
  have hsymbol {root : Node} {paths : List (List Nat)} {binding : Binding}
      (h : (root.visit? .empty .top .scalar paths).map
          (fun v => (v.2.2.form, v.2.1, v.1.find? (bytes "x"))) =
        some (.nameReference (bytes "x") .unknown, .tabular, some binding)) :
      ∃ m, (root.resolve .empty .top .scalar).at? paths.flatten = some m ∧
        m.form = .nameReference (bytes "x") binding.symbol := by
    obtain ⟨⟨scopes, stance, role, form, span, first, children⟩, hvisit, hview⟩ :=
      Option.map_eq_some_iff.1 h
    simp only [Node.form, Prod.mk.injEq] at hview
    obtain ⟨rfl, rfl, hfind⟩ := hview
    obtain ⟨found, hat, ⟨other, hlatest, rfl⟩ | ⟨hlacks, -⟩⟩ :=
      (lexicallyScoped .empty).references (Node.visits_iff.2 ⟨paths, rfl, hvisit⟩) nofun
    · rw [Scopes.find?_eq_some_iff.2 hlatest] at hfind
      cases hfind
      exact ⟨_, hat, rfl⟩
    · rw [Scopes.find?_eq_none_iff.2 hlacks] at hfind
      cases hfind
  have hread : (tokenize (bytes "let x=T;let f=(x:string){x};x")).toOption.map (fun r =>
      [[[1, 1], [1, 0, 0]], [[2, 0]]].map fun paths =>
        ((parseTokens (bytes "let x=T;let f=(x:string){x};x") r).1.visit? .empty .top .scalar
          paths).map fun v => (v.2.2.form, v.2.1, v.1.find? (bytes "x"))) =
      some [some (.nameReference (bytes "x") .unknown, .tabular, some (.plain .scalar)),
        some (.nameReference (bytes "x") .unknown, .tabular, some (.plain .table))] := by
    decide +kernel
  obtain ⟨r, hr, hviews⟩ := ok_of_map hread
  simp only [List.map_cons, List.map_nil, List.cons.injEq, and_true] at hviews
  obtain ⟨inside, hat, hform⟩ := hsymbol hviews.1
  obtain ⟨outside, hat', hform'⟩ := hsymbol hviews.2
  exact ⟨r, _, inside, outside, hr, rfl, hat, hform, hat', hform'⟩

end KustoFacts
