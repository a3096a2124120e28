import KustoFacts.Facts.Survey
import KustoFacts.Proofs.Facts.Union
import KustoFacts.Proofs.Query.Resolved

/-!
    What trees show. A tree shows what all of its nodes show, in the order of a visit; the children
    of a well-formed node can be read. What a node shows does not depend on places. -/

namespace KustoFacts
namespace Node

variable {text : Bytes} {normalize : Bool}

/-! ### All nodes of a tree -/

mutual

theorem preorderOnto_eq (rest : List Node) : ∀ n : Node, preorderOnto rest n = n.preorder ++ rest
  | .mk role form span first children => by
    rw [preorder, preorderOnto, preorderOnto, preorderAllOnto_eq rest, preorderAllOnto_eq []]
    simp

theorem preorderAllOnto_eq (rest : List Node) :
    ∀ ns : List Node, preorderAllOnto rest ns = ns.flatMap preorder ++ rest
  | [] => by simp [preorderAllOnto]
  | n :: ns => by
    rw [preorderAllOnto, preorderAllOnto_eq rest ns, preorderOnto_eq _ n]
    simp

end

theorem preorder_mk (role : Role) (form : Form) (span : Span) (first : Token)
    (children : List Node) : (mk role form span first children).preorder =
      mk role form span first children :: children.flatMap preorder := by
  rw [preorder, preorderOnto, preorderAllOnto_eq, List.append_nil]

theorem preorder_eq (n : Node) : n.preorder = n :: n.children.flatMap preorder := by
  cases n
  exact preorder_mk ..

/-- All nodes of a well-formed tree are well formed. -/
theorem WellFormed.preorder {n : Node} (h : n.WellFormed text) :
    ∀ m ∈ n.preorder, m.WellFormed text := by
  induction h with
  | mk ordered inside admits below ih =>
    intro m hm
    rw [preorder_mk] at hm
    rcases List.mem_cons.1 hm with rfl | hm
    · exact .mk ordered inside admits below
    · obtain ⟨c, hc, hm⟩ := List.mem_flatMap.1 hm
      exact ih c hc m hm

/-! ### What a tree shows -/

/-- What a node shows, if it is not malformed. -/
def shows (normalize : Bool) (n : Node) : Option Finding :=
  match n.finding normalize with
  | .ok found => found
  | .error _ => none

/-- What a tree shows, in the order of a visit. -/
def findings (normalize : Bool) (n : Node) : List Finding := n.preorder.filterMap (shows normalize)

theorem findings_mk (role : Role) (form : Form) (span : Span) (first : Token)
    (children : List Node) : (mk role form span first children).findings normalize =
      ((mk role form span first children).shows normalize).toList ++
        children.flatMap (findings normalize) := by
  have below : children.flatMap (findings normalize) =
      (children.flatMap preorder).filterMap (shows normalize) := by
    induction children with
    | nil => rfl
    | cons c cs ih => rw [List.flatMap_cons, List.flatMap_cons, List.filterMap_append, ih, findings]
  rw [findings, preorder_mk, List.filterMap_cons, below]
  cases (mk role form span first children).shows normalize <;> rfl

/-- A well-formed tree has no stubs. -/
theorem WellFormed.fault? {n : Node} (h : n.WellFormed text) : n.fault? = none := by
  have hadmits := h.admits
  unfold Node.fault?
  split
  · rename_i kind fault hform
    rw [hform] at hadmits
    exact hadmits.elim
  · rfl

/-! ### What counts for a finding -/

/-- A change of nodes that keeps slots, names and words, and makes the children of a node those of
    the changed node. -/
structure Keeps (change : Node → Node) : Prop where
  role : ∀ n, (change n).role = n.role
  name : ∀ n, (change n).refName? = n.refName?
  parens : ∀ n, (change n).form = .parenthesized ↔ n.form = .parenthesized
  word : ∀ n, (change n).first.text = n.first.text
  children : ∀ n, (change n).children = n.children.map change

/-- The target of a join whose right side is not in parentheses. -/
theorem joinTargets_of_ne {n : Node} (h : n.form ≠ .parenthesized) :
    joinTargets (some n) =
      match n.refName? with
      | some (b :: bs) => [b :: bs]
      | _ => [unnamedTarget] := by
  rcases n with ⟨role, form, span, first, children⟩
  cases form with
  | parenthesized => exact absurd rfl h
  | _ => rfl

namespace Keeps

variable {change : Node → Node}

theorem child? (h : Keeps change) (n : Node) (r : Role) :
    (change n).child? r = (n.child? r).map change := by
  simp only [Node.child?, h.children, List.find?_map, Function.comp_def, h.role]

theorem operands (h : Keeps change) (n : Node) :
    ((change n).childrenAs .operand).filterMap refName? =
      (n.childrenAs .operand).filterMap refName? := by
  simp only [childrenAs, h.children, List.filter_map, Function.comp_def, h.role,
    List.filterMap_map, h.name]

theorem joinTargets (h : Keeps change) (right : Option Node) :
    joinTargets (right.map change) = joinTargets right := by
  rcases right with _ | n
  · rfl
  rw [Option.map_some]
  by_cases hparens : n.form = .parenthesized
  · have hchildren := h.children n
    have hform := (h.parens n).2 hparens
    generalize change n = changed at hchildren hform ⊢
    rcases changed with ⟨role', form', span', first', children'⟩
    rcases n with ⟨role, form, span, first, children⟩
    obtain rfl : form = .parenthesized := hparens
    obtain rfl : form' = .parenthesized := hform
    obtain rfl : children' = children.map change := hchildren
    rcases children with _ | ⟨inner, _ | ⟨c, cs⟩⟩
    · rfl
    · simp only [Node.joinTargets, List.map_cons, List.map_nil, h.name]
    · rfl
  · rw [joinTargets_of_ne hparens, joinTargets_of_ne (mt (h.parens n).1 hparens), h.name]

end Keeps

/-! ### Places do not count -/

theorem keeps_outline : Keeps outline where
  role := role_outline
  name n := by rw [refName?, refName?, form_outline]
  parens n := by rw [form_outline]
  word n := by cases n; rw [outline_mk]; rfl
  children := children_outline

theorem shows_outline (n : Node) : n.outline.shows normalize = n.shows normalize := by
  unfold shows finding operatorFinding
  rw [keeps_outline.child?, keeps_outline.operands, keeps_outline.word, keeps_outline.joinTargets,
    form_outline, role_outline]
  cases n.form with
  | stub kind fault =>
    by_cases hrole : n.role = .operator
    · simp only [if_pos hrole]
      cases kind <;> rfl
    · simp only [if_neg hrole]
      cases kind <;> rfl
  | _ => rfl

mutual

theorem findings_outline : ∀ n : Node, n.outline.findings normalize = n.findings normalize
  | .mk role form span first children => by
    have hshows : (mk role form span first children).outline.shows normalize =
        (mk role form span first children).shows normalize := shows_outline _
    rw [outline_mk] at hshows ⊢
    rw [findings_mk, findings_mk, hshows, findingsAll_outline children]

theorem findingsAll_outline : ∀ ns : List Node,
    (ns.map outline).flatMap (findings normalize) = ns.flatMap (findings normalize)
  | [] => rfl
  | n :: ns => by
    rw [List.map_cons, List.flatMap_cons, List.flatMap_cons, findings_outline n,
      findingsAll_outline ns]

end

end Node

end KustoFacts
