import KustoFacts.Facts.Basic
import Mathlib.Data.List.Induction
import Mathlib.Data.List.Perm.Basic
import Mathlib.Data.List.Sort

/-!
    Facts taken together. A set of names is what its members are, joins are what their targets are
    for each kind, and the union of two facts is the union of each of their parts; a kind that one
    of them has is kept even without targets. Findings that are added one after another, in
    whatever order, give the union of what the first and the last of them give. -/

namespace KustoFacts

/-! ### Sets of names -/

namespace NameSet

variable {x : Bytes}

/-- Two sets with the same members are equal. -/
theorem ext_items {s t : NameSet} (h : ∀ x, x ∈ s.items ↔ x ∈ t.items) : s = t := by
  have hitems : s.items = t.items := s.ascending.eq_of_mem_iff t.ascending h
  cases s
  cases t
  cases hitems
  rfl

theorem ne_nil_of_mem {s : NameSet} (h : x ∈ s.items) : x ≠ [] := fun hx => s.named (hx ▸ h)

theorem mem_add {s : NameSet} {name : Bytes} :
    x ∈ (s.add name).items ↔ x ∈ s.items ∨ x ≠ [] ∧ x = name := by
  unfold add
  split
  · subst_vars
    simp
  · rename_i hname
    rw [mem_insertAscending]
    constructor
    · rintro (rfl | hx)
      · exact .inr ⟨hname, rfl⟩
      · exact .inl hx
    · rintro (hx | ⟨-, rfl⟩)
      · exact .inr hx
      · exact .inl rfl

theorem mem_addAll {names : List Bytes} :
    ∀ {s : NameSet}, x ∈ (s.addAll names).items ↔ x ∈ s.items ∨ x ≠ [] ∧ x ∈ names := by
  induction names with
  | nil => simp [addAll]
  | cons name names ih =>
    intro s
    rw [show s.addAll (name :: names) = (s.add name).addAll names from rfl, ih, mem_add,
      List.mem_cons]
    tauto

/-- The members of either set. -/
def union (s t : NameSet) : NameSet := s.addAll t.items

theorem mem_union {s t : NameSet} : x ∈ (s.union t).items ↔ x ∈ s.items ∨ x ∈ t.items := by
  rw [union, mem_addAll]
  exact or_congr_right ⟨And.right, fun h => ⟨ne_nil_of_mem h, h⟩⟩

theorem ofList_items (s : NameSet) : ofList s.items = s := by
  refine ext_items ?_
  intro x
  rw [ofList, mem_addAll]
  exact ⟨fun h => h.elim nofun And.right, fun h => .inr ⟨ne_nil_of_mem h, h⟩⟩

theorem union_add (s t : NameSet) (name : Bytes) : s.union (t.add name) = (s.union t).add name := by
  refine ext_items ?_
  intro x
  rw [mem_union, mem_add, mem_add, mem_union, or_assoc]

theorem union_addAll (s t : NameSet) (names : List Bytes) :
    s.union (t.addAll names) = (s.union t).addAll names := by
  refine ext_items ?_
  intro x
  rw [mem_union, mem_addAll, mem_addAll, mem_union, or_assoc]

instance : Std.Commutative union where
  comm s t := ext_items fun x => by rw [mem_union, mem_union, or_comm]

instance : Std.Associative union where
  assoc s t u := ext_items fun x => by simp only [mem_union, or_assoc]

end NameSet

/-! ### Joins -/

namespace JoinEntries

theorem lookup_cons (kind k : Bytes) (set : NameSet) (rest : JoinEntries) :
    List.lookup kind ((k, set) :: rest) = if kind = k then some set else rest.lookup kind := by
  rw [List.lookup_cons]
  by_cases h : kind = k
  · simp [h]
  · simp [h, beq_eq_false_iff_ne.2 h]

/-- A kind before all others has no entry. -/
theorem lookup_of_lt {kind : Bytes} :
    ∀ {l : JoinEntries}, (∀ k ∈ l.map (·.1), kind < k) → l.lookup kind = none
  | [], _ => rfl
  | (k, set) :: rest, h => by
    have hne : kind ≠ k := fun he => List.lt_irrefl k (he ▸ h k List.mem_cons_self)
    rw [lookup_cons, if_neg hne]
    exact lookup_of_lt fun k' hk => h k' (List.mem_cons_of_mem _ hk)

/-- A merge changes the entry of its kind alone. -/
theorem lookup_merge (kind : Bytes) (targets : List Bytes) (k : Bytes) :
    ∀ {l : JoinEntries}, (l.map (·.1)).Pairwise (· < ·) →
      (merge kind targets l).lookup k =
        if k = kind then some (((l.lookup kind).getD .empty).addAll targets) else l.lookup k
  | [], _ => by
    rw [merge, lookup_cons]
    rfl
  | (k', set) :: rest, h => by
    obtain ⟨hlt, hrest⟩ := List.pairwise_cons.1 h
    unfold merge
    split
    · rename_i hkind
      have hnone : List.lookup kind ((k', set) :: rest) = none := by
        refine lookup_of_lt ?_
        intro k hk
        rcases List.mem_cons.1 hk with rfl | hk
        · exact hkind
        · exact List.lt_trans hkind (hlt k hk)
      rw [lookup_cons, hnone]
      rfl
    · split
      · rename_i hkind
        subst hkind
        simp only [lookup_cons, if_true, Option.getD_some]
        split <;> rfl
      · rename_i hne
        simp only [lookup_cons, lookup_merge kind targets k hrest, if_neg hne]
        by_cases hk : k = k'
        · subst hk
          rw [if_pos rfl, if_neg (Ne.symm hne), if_pos rfl]
        · rw [if_neg hk, if_neg hk]

/-- Entries in ascending order are what is found in them. -/
theorem eq_of_lookup : ∀ {l l' : JoinEntries}, (l.map (·.1)).Pairwise (· < ·) →
    (l'.map (·.1)).Pairwise (· < ·) → (∀ kind, l.lookup kind = l'.lookup kind) → l = l'
  | [], [], _, _, _ => rfl
  | [], (k, set) :: rest, _, _, h => by
    have := h k
    simp at this
  | (k, set) :: rest, [], _, _, h => by
    have := h k
    simp at this
  | (k, set) :: rest, (k', set') :: rest', hl, hl', h => by
    obtain ⟨hlt, hrest⟩ := List.pairwise_cons.1 hl
    obtain ⟨hlt', hrest'⟩ := List.pairwise_cons.1 hl'
    -- a head that comes first in its list is not found in the other
    have first {k k' : Bytes} {set set' : NameSet} {rest rest' : JoinEntries}
        (h : List.lookup k ((k, set) :: rest) = List.lookup k ((k', set') :: rest'))
        (hlt' : ∀ a ∈ rest'.map (·.1), k' < a) : ¬k < k' := by
      intro hkk
      have hnone : List.lookup k ((k', set') :: rest') = none := by
        refine lookup_of_lt ?_
        intro a ha
        rcases List.mem_cons.1 ha with rfl | ha
        · exact hkk
        · exact List.lt_trans hkk (hlt' a ha)
      rw [hnone, lookup_cons, if_pos rfl] at h
      cases h
    have hk : k = k' := List.le_antisymm (first (h k').symm hlt) (first (h k) hlt')
    subst hk
    have hset : set = set' := by
      have := h k
      rwa [lookup_cons, lookup_cons, if_pos rfl, if_pos rfl, Option.some.injEq] at this
    subst hset
    rw [eq_of_lookup hrest hrest' fun kind => ?_]
    by_cases hkind : kind = k
    · subst hkind
      rw [lookup_of_lt hlt, lookup_of_lt hlt']
    · have := h kind
      rwa [lookup_cons, lookup_cons, if_neg hkind, if_neg hkind] at this

end JoinEntries

namespace Joins

/-- Two maps with the same targets for each kind are equal. -/
theorem ext_get? {j k : Joins} (h : ∀ kind, j.get? kind = k.get? kind) : j = k := by
  have hentries : j.entries = k.entries := JoinEntries.eq_of_lookup j.ascending k.ascending h
  cases j
  cases k
  cases hentries
  rfl

theorem get?_add (j : Joins) (kind : Bytes) (targets : List Bytes) (k : Bytes) :
    (j.add kind targets).get? k =
      if k = kind then some (((j.get? kind).getD .empty).addAll targets) else j.get? k :=
  JoinEntries.lookup_merge kind targets k j.ascending

/-- Entries added one by one are united kind by kind with those that are there. -/
theorem get?_addAll (kind : Bytes) : ∀ (entries : JoinEntries) (j : Joins),
    (entries.map (·.1)).Pairwise (· < ·) →
      (j.addAll entries).get? kind = Option.merge .union (j.get? kind) (entries.lookup kind)
  | [], j, _ => by
    rw [List.lookup_nil, Option.merge_none_right]
    rfl
  | (k, set) :: rest, j, h => by
    obtain ⟨hlt, hrest⟩ := List.pairwise_cons.1 h
    rw [show j.addAll ((k, set) :: rest) = (j.add k set.items).addAll rest from rfl,
      get?_addAll kind rest _ hrest, get?_add, JoinEntries.lookup_cons]
    by_cases hk : kind = k
    · subst hk
      rw [if_pos rfl, if_pos rfl, JoinEntries.lookup_of_lt hlt, Option.merge_none_right]
      cases j.get? kind with
      | none => exact congrArg some (NameSet.ofList_items set)
      | some s => rfl
    · rw [if_neg hk, if_neg hk]

/-- The targets of either map, kind by kind. -/
def union (j k : Joins) : Joins := j.addAll k.entries

theorem get?_union (j k : Joins) (kind : Bytes) :
    (j.union k).get? kind = Option.merge .union (j.get? kind) (k.get? kind) :=
  get?_addAll kind k.entries j k.ascending

theorem addAll_entries (j : Joins) : Joins.empty.addAll j.entries = j := by
  refine ext_get? ?_
  intro kind
  rw [get?_addAll kind _ _ j.ascending]
  exact Option.merge_none_left

theorem union_add (j k : Joins) (kind : Bytes) (targets : List Bytes) :
    j.union (k.add kind targets) = (j.union k).add kind targets := by
  refine ext_get? ?_
  intro kind'
  rw [get?_union, get?_add, get?_add, get?_union, get?_union]
  by_cases hk : kind' = kind
  · subst hk
    rw [if_pos rfl, if_pos rfl]
    cases j.get? kind' with
    | none => cases k.get? kind' <;> rfl
    | some s =>
      cases k.get? kind' with
      | none => exact congrArg some (NameSet.union_addAll s .empty targets)
      | some t => exact congrArg some (NameSet.union_addAll s t targets)
  · rw [if_neg hk, if_neg hk]

theorem union_right_comm (j k l : Joins) : (j.union k).union l = (j.union l).union k := by
  refine ext_get? ?_
  intro kind
  simp only [get?_union]
  ac_rfl

end Joins

/-! ### Facts -/

namespace Facts

/-- A copy under another id has the same facts. -/
theorem withId_eq (f : Facts) (id : Bytes) : f.withId id = { f with id := id } := by
  rw [withId, NameSet.ofList_items, NameSet.ofList_items, NameSet.ofList_items,
    Joins.addAll_entries]

/-- The facts of either, under the id of the first. -/
def union (f g : Facts) : Facts where
  id := f.id
  functionCalls := f.functionCalls.union g.functionCalls
  joins := f.joins.union g.joins
  operators := f.operators.union g.operators
  tables := f.tables.union g.tables

theorem union_empty (f : Facts) (id : Bytes) : f.union (.empty id) = f := rfl

theorem union_add (f g : Facts) (found : Finding) : f.union (g.add found) = (f.union g).add found := by
  cases found with
  | call name => simp only [union, add, NameSet.union_add]
  | table name => simp only [union, add, NameSet.union_add]
  | operator word => simp only [union, add, NameSet.union_add]
  | join kind targets => simp only [union, add, Joins.union_add]

theorem union_right_comm (f g h : Facts) : (f.union g).union h = (f.union h).union g := by
  have hsets (s t u : NameSet) : (s.union t).union u = (s.union u).union t := by ac_rfl
  simp only [union, hsets _ g.functionCalls, hsets _ g.operators, hsets _ g.tables,
    Joins.union_right_comm _ g.joins]

theorem add_right_comm (f : Facts) (found found' : Finding) :
    (f.add found).add found' = (f.add found').add found := by
  have hadd (f : Facts) (found : Finding) : f.add found = f.union ((empty []).add found) := by
    rw [union_add, union_empty]
  rw [hadd f found, hadd _ found', union_right_comm, ← hadd f found', ← hadd]

/-- The facts that findings give. -/
def ofFindings (id : Bytes) (found : List Finding) : Facts := found.foldl add (.empty id)

theorem id_ofFindings (id : Bytes) (found : List Finding) : (ofFindings id found).id = id := by
  induction found using List.reverseRecOn with
  | nil => rfl
  | append_singleton found last ih =>
    rw [ofFindings, List.foldl_append, List.foldl_cons, List.foldl_nil, ← ofFindings]
    cases last <;> exact ih

/-- The order in which findings are added does not count. -/
theorem ofFindings_perm (id : Bytes) {found found' : List Finding} (h : found.Perm found') :
    ofFindings id found = ofFindings id found' :=
  h.foldl_eq' (fun x _ y _ f => add_right_comm f x y) (empty id)

/-- Findings give the same facts about every query. -/
theorem withId_ofFindings (id id' : Bytes) (found : List Finding) :
    (ofFindings id found).withId id' = ofFindings id' found := by
  rw [withId_eq]
  induction found using List.reverseRecOn with
  | nil => rfl
  | append_singleton found last ih =>
    simp only [ofFindings, List.foldl_append, List.foldl_cons, List.foldl_nil] at ih ⊢
    rw [← ih]
    cases last <;> rfl

/-- What two lists of findings give together is the union of what each gives. -/
theorem ofFindings_append (id id' : Bytes) (xs ys : List Finding) :
    ofFindings id (xs ++ ys) = (ofFindings id xs).union (ofFindings id' ys) := by
  induction ys using List.reverseRecOn with
  | nil => rw [List.append_nil]; rfl
  | append_singleton ys y ih =>
    rw [← List.append_assoc]
    simp only [ofFindings, List.foldl_append, List.foldl_cons, List.foldl_nil] at ih ⊢
    rw [union_add, ← ih]

end Facts
end KustoFacts
