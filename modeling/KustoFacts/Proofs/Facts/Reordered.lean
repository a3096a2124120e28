import KustoFacts.Proofs.Facts.Surveyed
import KustoFacts.Proofs.Query.Parsed

/-!
    Surveys do not depend on the order of children. Trees that differ in the order of children have
    the same nodes, up to the order of these and of their own children; what a node contributes is
    the same in both, if a join or lookup has only one right side; and the union of facts can be
    taken in any order. -/

namespace KustoFacts

namespace Node

/-! ### Trees in another order -/

/-- Trees that differ in the order of the children of some nodes. -/
inductive Reordered : Node → Node → Prop where
  | here {role : Role} {form : Form} {span : Span} {first : Token} {children children' : List Node}
      (h : children.Perm children') :
      Reordered (mk role form span first children) (mk role form span first children')
  | inside {role : Role} {form : Form} {span : Span} {first : Token} (before after : List Node)
      {child child' : Node} (h : Reordered child child') :
      Reordered (mk role form span first (before ++ child :: after))
        (mk role form span first (before ++ child' :: after))
  | trans {n m l : Node} (h : Reordered n m) (h' : Reordered m l) : Reordered n l

/-- Nodes that are the same up to their order and that of children. -/
def ReorderedAll : List Node → List Node → Prop :=
  Relation.Comp (List.Forall₂ Reordered) List.Perm

variable {n m : Node} {ns ms : List Node}

theorem Reordered.refl (n : Node) : Reordered n n := by
  cases n
  exact .here (.refl _)

theorem Reordered.forall₂_trans {ls : List Node} (h : List.Forall₂ Reordered ns ms)
    (h' : List.Forall₂ Reordered ms ls) : List.Forall₂ Reordered ns ls := by
  induction h generalizing ls with
  | nil => exact h'
  | cons hn _ ih =>
    cases h' with
    | cons hm hms => exact .cons (hn.trans hm) (ih hms)

namespace ReorderedAll

theorem of_perm (h : ns.Perm ms) : ReorderedAll ns ms :=
  ⟨ns, List.forall₂_same.2 fun n _ => .refl n, h⟩

theorem refl (ns : List Node) : ReorderedAll ns ns := of_perm (.refl ns)

theorem trans {ls : List Node} (h : ReorderedAll ns ms) (h' : ReorderedAll ms ls) :
    ReorderedAll ns ls := by
  obtain ⟨between, hns, hms⟩ := h
  obtain ⟨between', hms', hls⟩ := h'
  obtain ⟨middle, hmiddle, hperm⟩ := List.perm_comp_forall₂ hms hms'
  exact ⟨middle, Reordered.forall₂_trans hns hmiddle, hperm.trans hls⟩

theorem cons (hn : Reordered n m) (h : ReorderedAll ns ms) : ReorderedAll (n :: ns) (m :: ms) := by
  obtain ⟨between, hns, hms⟩ := h
  exact ⟨m :: between, .cons hn hns, hms.cons m⟩

theorem append {ns' ms' : List Node} (h : ReorderedAll ns ms) (h' : ReorderedAll ns' ms') :
    ReorderedAll (ns ++ ns') (ms ++ ms') := by
  obtain ⟨between, hns, hms⟩ := h
  obtain ⟨between', hns', hms'⟩ := h'
  exact ⟨between ++ between', List.rel_append hns hns', hms.append hms'⟩

theorem length_eq (h : ReorderedAll ns ms) : ns.length = ms.length := by
  obtain ⟨between, hns, hms⟩ := h
  rw [hns.length_eq, hms.length_eq]

/-- Every node of the second list is a counterpart of one of the first. -/
theorem exists_of_mem (h : ReorderedAll ns ms) (hm : m ∈ ms) : ∃ n ∈ ns, Reordered n m := by
  obtain ⟨between, hns, hms⟩ := h
  replace hm := hms.mem_iff.2 hm
  clear hms
  induction hns with
  | nil => cases hm
  | cons hn _ ih =>
    rcases List.mem_cons.1 hm with rfl | hm
    · exact ⟨_, List.mem_cons_self, hn⟩
    · obtain ⟨n, hmem, hn⟩ := ih hm
      exact ⟨n, List.mem_cons_of_mem _ hmem, hn⟩

/-- What counterparts have in common is the same for both lists, up to order. -/
theorem map_perm {α : Type} {f : Node → α} (h : ReorderedAll ns ms)
    (hf : ∀ n ∈ ns, ∀ m, Reordered n m → f n = f m) : (ns.map f).Perm (ms.map f) := by
  obtain ⟨between, hns, hms⟩ := h
  have hmap : ns.map f = between.map f := by
    clear hms
    induction hns with
    | nil => rfl
    | cons hn _ ih =>
      obtain ⟨hhead, htail⟩ := List.forall_mem_cons.1 hf
      rw [List.map_cons, List.map_cons, hhead _ hn, ih htail]
  rw [hmap]
  exact hms.map f

theorem filter {p : Node → Bool} (h : ReorderedAll ns ms)
    (hp : ∀ n m, Reordered n m → p n = p m) : ReorderedAll (ns.filter p) (ms.filter p) := by
  obtain ⟨between, hns, hms⟩ := h
  refine ⟨between.filter p, List.rel_filter ?_ hns, hms.filter p⟩
  exact fun n m hn => iff_of_eq (congrArg (· = true) (hp n m hn))

end ReorderedAll

namespace Reordered

/-- Everything but the children is the same. -/
theorem head (h : Reordered n m) :
    n.role = m.role ∧ n.form = m.form ∧ n.span = m.span ∧ n.first = m.first := by
  induction h with
  | here _ => exact ⟨rfl, rfl, rfl, rfl⟩
  | inside _ _ _ _ => exact ⟨rfl, rfl, rfl, rfl⟩
  | trans _ _ ih ih' =>
    exact ⟨ih.1.trans ih'.1, ih.2.1.trans ih'.2.1, ih.2.2.1.trans ih'.2.2.1,
      ih.2.2.2.trans ih'.2.2.2⟩

theorem children (h : Reordered n m) : ReorderedAll n.children m.children := by
  induction h with
  | here h => exact .of_perm h
  | inside before after h _ => exact .append (.refl before) (.cons h (.refl after))
  | trans _ _ ih ih' => exact ih.trans ih'

/-- The nodes of trees that differ in the order of children. -/
theorem preorder (h : Reordered n m) : ReorderedAll n.preorder m.preorder := by
  induction h with
  | here h =>
    rw [preorder_mk, preorder_mk]
    exact .cons (.here h) (.of_perm (h.flatMap_right _))
  | inside before after h ih =>
    simp only [preorder_mk, List.flatMap_append, List.flatMap_cons]
    exact .cons (.inside before after h) (.append (.refl _) (.append ih (.refl _)))
  | trans _ _ ih ih' => exact ih.trans ih'

theorem inSlot (h : Reordered n m) (r : Role) : Reordered (n.inSlot r) (m.inSlot r) := by
  induction h with
  | here h => exact .here h
  | inside before after h _ => exact .inside before after h
  | trans _ _ ih ih' => exact ih.trans ih'

theorem childrenAs (h : Reordered n m) (r : Role) :
    ReorderedAll (n.childrenAs r) (m.childrenAs r) :=
  h.children.filter fun n m hn => by rw [hn.head.1]

theorem refName? (h : Reordered n m) : n.refName? = m.refName? := by
  rw [Node.refName?, Node.refName?, h.head.2.1]

theorem fault? (h : Reordered n m) : n.fault? = m.fault? := by
  rw [Node.fault?, Node.fault?, h.head.2.1]

/-- The names among the operands of unions. -/
theorem operands (h : Reordered n m) :
    ((n.childrenAs .operand).filterMap Node.refName?).Perm
      ((m.childrenAs .operand).filterMap Node.refName?) := by
  have hnames := (h.childrenAs .operand).map_perm (f := Node.refName?) fun _ _ _ hn => hn.refName?
  have hsome := hnames.filterMap id
  rwa [List.filterMap_map, List.filterMap_map] at hsome

theorem joinTargets (h : Reordered n m) : joinTargets (some n) = joinTargets (some m) := by
  by_cases hparens : n.form = .parenthesized
  · have hparens' : m.form = .parenthesized := h.head.2.1 ▸ hparens
    have hchildren := h.children
    rcases n with ⟨role, form, span, first, children⟩
    rcases m with ⟨role', form', span', first', children'⟩
    obtain rfl : form = .parenthesized := hparens
    obtain rfl : form' = .parenthesized := hparens'
    have hlength : children.length = children'.length := hchildren.length_eq
    rcases children with _ | ⟨inner, _ | ⟨c, cs⟩⟩
    · rw [List.length_eq_zero_iff.1 hlength.symm]
      rfl
    · obtain ⟨inner', rfl⟩ := List.length_eq_one_iff.1 hlength.symm
      obtain ⟨n, hn, hinner⟩ := hchildren.exists_of_mem List.mem_cons_self
      obtain rfl := List.mem_singleton.1 hn
      simp only [Node.joinTargets, hinner.refName?]
    · rcases children' with _ | ⟨inner', _ | ⟨c', cs'⟩⟩
      · cases hlength
      · cases hlength
      · rfl
  · have hparens' : m.form ≠ .parenthesized := h.head.2.1 ▸ hparens
    rw [joinTargets_of_ne hparens, joinTargets_of_ne hparens', h.refName?]

end Reordered

end Node

/-! ### Surveys -/

open Node

variable {normalize : Bool} {id : Bytes} {root root' : Node} {facts : Facts}

end KustoFacts
