import KustoFacts.Proofs.Query.Grown.Statement
import KustoFacts.Proofs.Query.Parsed
import KustoFacts.Proofs.Facts.Findings

/-!
    Parsed trees are grown trees. The tree that the parser returns is grown, faults or not, and
    resolving fills in symbols and nothing else: without its symbols a tree is what it was before.
    Whatever holds of a node when it is built can so be read off the tree of a parsed text. -/

namespace KustoFacts

/-- A form without what is filled in when names are resolved. -/
def Form.bare : Form → Form
  | .nameReference name _ => .nameReference name .unknown
  | .functionDeclaration view _ => .functionDeclaration view false
  | form => form

namespace Form

@[simp] theorem part_bare (form : Form) : form.bare.part = form.part := by cases form <;> rfl

@[simp] theorem kind_bare (form : Form) : form.bare.kind = form.kind := by cases form <;> rfl

@[simp] theorem room_bare (form : Form) : form.bare.room = form.room := by cases form <;> rfl

@[simp] theorem bare_eq_query (form : Form) : form.bare = .query ↔ form = .query := by
  cases form <;> simp [bare]

@[simp] theorem bare_eq_binary (form : Form) (op : Bytes) :
    form.bare = .binary op ↔ form = .binary op := by
  cases form <;> simp [bare]

@[simp] theorem level?_bare (form : Form) : form.bare.level? = form.level? := by
  cases form <;> rfl

end Form

namespace Node

variable {text : Bytes} {read : Tokens} {catalog : TableNames} {k : Nat}

mutual

/-- A node without what is filled in when names are resolved. -/
def bare : Node → Node
  | .mk role form span first children => .mk role form.bare span first (bareAll children)

/-- The nodes of a list without what is filled in when names are resolved. -/
def bareAll : List Node → List Node
  | [] => []
  | n :: ns => n.bare :: bareAll ns

end

theorem bareAll_eq_map (ns : List Node) : bareAll ns = ns.map bare := by
  induction ns with
  | nil => rw [bareAll, List.map_nil]
  | cons n ns ih => rw [bareAll, ih, List.map_cons]

theorem bare_mk (role : Role) (form : Form) (span : Span) (first : Token) (children : List Node) :
    (Node.mk role form span first children).bare =
      .mk role form.bare span first (children.map bare) := by
  rw [bare, bareAll_eq_map]

@[simp] theorem form_bare (n : Node) : n.bare.form = n.form.bare := by cases n; rw [bare]; rfl

@[simp] theorem children_bare (n : Node) : n.bare.children = n.children.map bare := by
  cases n; rw [bare_mk]; rfl

@[simp] theorem role_bare (n : Node) : n.bare.role = n.role := by cases n; rw [bare]; rfl

@[simp] theorem span_bare (n : Node) : n.bare.span = n.span := by cases n; rw [bare]; rfl

@[simp] theorem first_bare (n : Node) : n.bare.first = n.first := by cases n; rw [bare]; rfl

@[simp] theorem bare_inSlot (r : Role) (n : Node) : (n.inSlot r).bare = n.bare.inSlot r := by
  cases n
  simp only [inSlot, bare_mk]

@[simp] theorem kind_bare (n : Node) : n.bare.kind = n.kind := by
  rw [kind, form_bare, Form.kind_bare, kind]

/-- Whether an operator is applied does not depend on symbols. -/
theorem applies_bare (n : Node) : read.Applies n.bare ↔ read.Applies n := by
  constructor
  · rintro ⟨⟨word, known, joins⟩, after⟩
    simp only [first_bare, kind_bare] at word known joins after
    exact ⟨⟨word, known, joins⟩, after⟩
  · rintro ⟨⟨word, known, joins⟩, after⟩
    refine ⟨⟨?_, ?_, ?_⟩, ?_⟩ <;> simpa only [first_bare, kind_bare]

/-- How operands bind does not depend on symbols. -/
theorem binds_bare (form : Form) (operands : List Node) :
    form.Binds (operands.map bare) ↔ form.Binds operands := by
  rcases operands with _ | ⟨a, _ | ⟨b, _ | ⟨c, _ | ⟨d, rest⟩⟩⟩⟩ <;> cases form <;>
    simp [Form.Binds, BindsTighter]

/-- What is spelled does not depend on symbols. -/
theorem spelled_bare (form : Form) (children : List Node) :
    form.bare.Spelled read (children.map bare) ↔ form.Spelled read children := by
  cases form <;> simp only [Form.bare, Form.Spelled, List.forall_mem_map, role_bare, span_bare,
    applies_bare, binds_bare]

mutual

/-- Symbols and places are forgotten in either order. -/
theorem outline_bare : ∀ n : Node, n.bare.outline = n.outline.bare
  | .mk role form span first children => by
    rw [bare_mk, outline_mk, outline_mk, bare_mk, map_outline_bare children]

theorem map_outline_bare :
    ∀ ns : List Node, (ns.map bare).map outline = (ns.map outline).map bare
  | [] => rfl
  | n :: ns => by
    rw [List.map_cons, List.map_cons, List.map_cons, List.map_cons, outline_bare n,
      map_outline_bare ns]

end

/-! ### Resolving -/

mutual

/-- Resolving fills in symbols and nothing else. -/
theorem bare_resolve (scopes : Scopes) (stance : Stance) :
    ∀ n : Node, (n.resolve catalog scopes stance).bare = n.bare
  | .mk role form span first children => by
    cases form with
    | nameReference name symbol => cases stance <;> simp only [resolve, bare_mk, Form.bare]
    | namedParameter name => rw [resolve]
    | parameter name type tabular => rw [resolve]
    | query => simp only [resolve, bare_mk, bare_resolveStatements scopes.push children]
    | functionDeclaration view tabular =>
      have hfunction := bare_resolveFunction (declareParams scopes.push children) children
      simp only [resolve, bare_mk, Form.bare, hfunction]
    | _ => simp only [resolve, bare_mk, bare_resolveChildren]

theorem bare_resolveChildren (scopes : Scopes) (form : Form) (stance : Stance) (index : Nat) :
    ∀ ns : List Node,
      (resolveChildren catalog scopes form stance index ns).map bare = ns.map bare
  | [] => by simp [resolveChildren]
  | n :: ns => by
    simp only [resolveChildren, List.map_cons, bare_resolve scopes _ n,
      bare_resolveChildren scopes form stance (index + 1) ns]

theorem bare_resolveFunction (scopes : Scopes) :
    ∀ ns : List Node, (resolveFunction catalog scopes ns).2.map bare = ns.map bare
  | [] => by simp [resolveFunction]
  | .mk role form span first children :: ns => by
    have hns := bare_resolveFunction scopes ns
    cases form with
    | query =>
      simp only [resolveFunction, List.map_cons, bare_mk, hns,
        bare_resolveStatements scopes children]
    | _ => simp only [resolveFunction, List.map_cons, bare_mk, hns, bare_resolveChildren]

theorem bare_resolveStatements (scopes : Scopes) :
    ∀ ns : List Node, (resolveStatements catalog scopes ns).2.map bare = ns.map bare
  | [] => by simp [resolveStatements]
  | .mk role form span first children :: ns => by
    simp only [resolveStatements, List.map_cons, bare_mk, bare_resolveChildren,
      bare_resolveStatements _ ns]

end

/-- Symbols do not count for how a node is grown. -/
theorem Grown.of_bare {n m : Node} (h : n.Grown text read k) (hbare : m.bare = n.bare) :
    m.Grown text read k := by
  induction h generalizing m with
  | @mk k role form span first children token starts solid inside ordered spelled operator _ ih =>
    rcases m with ⟨role', form', span', first', children'⟩
    rw [bare_mk, bare_mk] at hbare
    obtain ⟨rfl, hform, rfl, rfl, hchildren⟩ := Node.mk.inj hbare
    have hpart : form'.part = form.part := by rw [← Form.part_bare, hform, Form.part_bare]
    have hroom : form'.room = form.room := by rw [← Form.room_bare, hform, Form.room_bare]
    have hquery : form = .query → form' = .query := by
      rw [← Form.bare_eq_query, ← hform, Form.bare_eq_query]
      exact id
    have hspans : children'.map span = children.map Node.span := by
      simpa [Function.comp_def] using congrArg (List.map Node.span) hchildren
    refine .mk token starts (fun hne => solid (mt hquery hne)) inside (ordered.of_spans hspans) ?_
      (hpart ▸ operator) ?_
    · rwa [← spelled_bare, hform, hchildren, spelled_bare]
    · intro c hc
      obtain ⟨d, hd, hsame⟩ := List.mem_map.1 (hchildren ▸ List.mem_map_of_mem hc)
      have hrole : c.role = d.role := by rw [← role_bare, ← hsame, role_bare]
      rw [hroom, hrole]
      exact ih d hd hsame.symm

theorem Grown.resolve {n : Node} (h : n.Grown text read k) (scopes : Scopes) (stance : Stance) :
    (n.resolve catalog scopes stance).Grown text read k :=
  h.of_bare (bare_resolve scopes stance n)

/-- Every node in a grown tree is grown, with as much room at most. -/
theorem Grown.preorder {n : Node} (h : n.Grown text read k) :
    ∀ m ∈ n.preorder, m.Grown text read k := by
  induction h with
  | @mk k role form span first children token starts solid inside ordered spelled operator below ih =>
    intro m hm
    rw [preorder_mk] at hm
    rcases List.mem_cons.1 hm with rfl | hm
    · exact .mk token starts solid inside ordered spelled operator below
    · obtain ⟨c, hc, hm⟩ := List.mem_flatMap.1 hm
      exact (ih c hc m hm).mono (form.room_le k c.role)

end Node

namespace Parser

variable {text : Bytes} {read : Tokens} {g : Grammar} {bound : Nat}

/-! ### All goals -/

theorem grows_produce (G : Grows text read g) : Grows text read ⟨bound, g.produce⟩ where
  unary hs := by
    refine .nested hs ?_ fun t _ _ => .fail
    rintro k' t ht rfl hcurrent -
    rw [← hcurrent]
    exact takes_signed G ht
  binary level hs := takes_binary G level hs
  pipeOperator hs := by
    refine .nested hs ?_ fun t _ _ => .fail
    rintro k' t ht rfl hcurrent -
    rw [← hcurrent]
    exact takes_pipeOperator G ht
  sources hs := takes_primary G hs
  query stop hs := row_query G stop hs

theorem grows_reachIn (text : Bytes) (read : Tokens) :
    ∀ steps, Grows text read ⟨steps, Grammar.reachIn steps⟩
  | 0 => ⟨fun _ => .fail, fun _ _ => .fail, fun _ => .fail, fun _ => .fail, fun _ _ => .fail⟩
  | steps + 1 => grows_produce (grows_reachIn text read steps)

/-- At its beginning a text has room for all levels. -/
theorem stands_initial (h : tokenize text = .ok read) :
    (initial text read).Stands text read maxNesting where
  toAlong := along_initial h
  room := rfl

end Parser

/-! ### Parsed texts -/

variable {catalog : TableNames} {text : Bytes} {read : Tokens} {p : Parsed}

theorem grown_parseTokens (h : tokenize text = .ok read) :
    (parseTokens text read).1.Grown text read maxNesting := by
  have hstands := Parser.stands_initial h
  have hgrows := (Parser.grows_reachIn text read (Parser.enough read.tokens.length)).query
    .endOfInput hstands
  rw [parseTokens, Parser.runQuery]
  rcases hrun : (Grammar.reachIn (Parser.enough read.tokens.length) (.query .endOfInput)).run
    (Parser.initial text read) with ⟨_ | root, s⟩
  · have hcurrent := hstands.spells_current
    refine .leaf hstands.current_mem rfl (absurd rfl) ?_ (Nat.le_refl _) trivial (by rintro ⟨⟩)
    exact Nat.le_trans hcurrent.start hcurrent.stop
  · exact (hgrows root s hrun).grown root List.mem_cons_self

/-- The tree of a parsed text is grown from the tokens of the text. -/
theorem grown_parse (h : parse catalog text = .ok p) :
    ∃ read, tokenize p.text = .ok read ∧ p.root.Grown p.text read maxNesting := by
  obtain ⟨read, hread, rfl⟩ := parse_ok h
  exact ⟨read, hread, (grown_parseTokens hread).resolve .top .scalar⟩

end KustoFacts
