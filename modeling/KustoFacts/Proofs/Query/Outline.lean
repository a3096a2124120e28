import KustoFacts.Query.Parser.Operator

/-!
    What is left of a tree when places are forgotten. Two trees with the same outline have the same
    forms, slots and first words everywhere; they may stand at different places of different texts.
    The rearrangements that the parser makes of nodes already built commute with outlines. -/

namespace KustoFacts

namespace Token

/-- A token without its place. -/
def outline (t : Token) : Token := ⟨t.kind, t.text, .start, 0⟩

end Token

namespace Node

mutual

/-- A node without places. -/
def outline : Node → Node
  | .mk role form _ first children => .mk role form ⟨0, 0⟩ first.outline (outlineAll children)

/-- The nodes of a list without places. -/
def outlineAll : List Node → List Node
  | [] => []
  | n :: ns => n.outline :: outlineAll ns

end

theorem outlineAll_eq_map : ∀ ns : List Node, outlineAll ns = ns.map outline
  | [] => by rw [outlineAll]; rfl
  | n :: ns => by rw [outlineAll, outlineAll_eq_map ns]; rfl

theorem outline_mk (role : Role) (form : Form) (span : Span) (first : Token)
    (children : List Node) :
    (Node.mk role form span first children).outline =
      .mk role form ⟨0, 0⟩ first.outline (children.map outline) := by
  rw [outline, outlineAll_eq_map]

@[simp] theorem role_outline (n : Node) : n.outline.role = n.role := by
  cases n; rw [outline]; rfl

@[simp] theorem form_outline (n : Node) : n.outline.form = n.form := by
  cases n; rw [outline]; rfl

@[simp] theorem children_outline (n : Node) : n.outline.children = n.children.map outline := by
  cases n; rw [outline_mk]; rfl

@[simp] theorem outline_inSlot (r : Role) (n : Node) :
    (n.inSlot r).outline = n.outline.inSlot r := by
  cases n; simp only [inSlot, outline_mk]

/-- Two nodes with the same outline. -/
def Like (x y : Node) : Prop := x.outline = y.outline

/-- Two lists of nodes with the same outlines. -/
def LikeAll (xs ys : List Node) : Prop := xs.map outline = ys.map outline

namespace Like

variable {x y : Node}

theorem form (h : x.Like y) : x.form = y.form := by
  rw [← form_outline x, h, form_outline]

theorem role (h : x.Like y) : x.role = y.role := by
  rw [← role_outline x, h, role_outline]

theorem inSlot (h : x.Like y) (r : Role) : (x.inSlot r).Like (y.inSlot r) := by
  rw [Like, outline_inSlot, outline_inSlot, h]

end Like

namespace LikeAll

variable {xs ys xs' ys' : List Node} {x y : Node}

theorem nil : LikeAll [] [] := rfl

theorem cons (h : x.Like y) (hs : LikeAll xs ys) : LikeAll (x :: xs) (y :: ys) := by
  rw [LikeAll, List.map_cons, List.map_cons, h, hs]

theorem append (h : LikeAll xs ys) (h' : LikeAll xs' ys') : LikeAll (xs ++ xs') (ys ++ ys') := by
  rw [LikeAll, List.map_append, List.map_append, h, h']

theorem reverse (h : LikeAll xs ys) : LikeAll xs.reverse ys.reverse := by
  rw [LikeAll, List.map_reverse, List.map_reverse, h]

theorem inSlot (h : LikeAll xs ys) (r : Role) :
    LikeAll (xs.map (·.inSlot r)) (ys.map (·.inSlot r)) := by
  have comm : ∀ zs : List Node,
      (zs.map (·.inSlot r)).map outline = (zs.map outline).map (·.inSlot r) := by
    intro zs; simp [Function.comp_def]
  rw [LikeAll, comm, comm, h]

theorem length (h : LikeAll xs ys) : xs.length = ys.length := by
  simpa using congrArg List.length h

end LikeAll

/-- A node is like another when it has the same form and first word and like children. -/
theorem like_mk {role : Role} {form : Form} {span span' : Span} {first first' : Token}
    {children children' : List Node} (hf : first.outline = first'.outline)
    (hc : LikeAll children children') :
    (Node.mk role form span first children).Like (.mk role form span' first' children') := by
  rw [Like, outline_mk, outline_mk, hf, hc]

end Node

/-! ### Rearrangements -/

namespace Parser

theorem asDeclaration?_outline (n : Node) :
    asDeclaration? n.outline = (asDeclaration? n).map Node.outline := by
  rcases n with ⟨role, form, span, first, children⟩
  rw [Node.outline_mk]
  cases form <;> simp [asDeclaration?, Node.outline_mk]

theorem declaredNames?_outline (n : Node) :
    declaredNames? n.outline = (declaredNames? n).map (·.map Node.outline) := by
  fun_induction declaredNames? n with
  | case1 role name symbol span first children =>
    simp [Node.outline_mk, declaredNames?]
  | case2 role span first inner ih =>
    simp [Node.outline_mk, declaredNames?, ih]
  | case3 role span first items =>
    rw [Node.outline_mk, declaredNames?]
    induction items with
    | nil => rfl
    | cons n ns ih =>
      simp only [List.map_cons, List.mapM_cons, asDeclaration?_outline]
      cases h : asDeclaration? n with
      | none => rfl
      | some m =>
        simp only [Option.map_some, Option.bind_eq_bind, Option.bind_some, ih]
        cases ns.mapM asDeclaration? <;> simp
  | case4 n h1 h2 h3 =>
    rcases n with ⟨role, form, span, first, children⟩
    rw [Node.outline_mk]
    cases form with
    | parenthesized =>
      rcases children with _ | ⟨c, _ | ⟨d, ds⟩⟩
      · rfl
      · exact absurd rfl (h2 role span first c)
      · rfl
    | nameReference name symbol => exact absurd rfl (h1 role name symbol span first children)
    | list => exact absurd rfl (h3 role span first children)
    | _ => rfl

theorem sourceList_outline (n : Node) : sourceList n.outline = (sourceList n).map Node.outline := by
  rcases n with ⟨role, form, span, first, children⟩
  rw [Node.outline_mk]
  cases form <;> simp [sourceList, Node.outline_mk]

end Parser
end KustoFacts
