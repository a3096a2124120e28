import KustoFacts.Text.Bytes

/-!
    Sets of names. A set is kept as its members in strictly ascending order, so that two sets with
    the same members are equal and writing a set needs no sorting. The empty name is never added. -/

namespace KustoFacts

/-! ### Ascending lists -/

/-- Insertion into an ascending list; a member stays where it is. -/
def insertAscending (x : Bytes) : List Bytes → List Bytes
  | [] => [x]
  | y :: ys =>
    if x < y then x :: y :: ys else if x = y then y :: ys else y :: insertAscending x ys

/-- Insertion adds the new member and keeps the old ones. -/
theorem mem_insertAscending {x z : Bytes} :
    ∀ {l : List Bytes}, z ∈ insertAscending x l ↔ z = x ∨ z ∈ l
  | [] => by simp [insertAscending]
  | y :: ys => by
    unfold insertAscending
    split
    · simp
    · split
      · subst_vars; simp
      · simp [mem_insertAscending (l := ys)]
        constructor
        · rintro (h | h | h) <;> simp [h]
        · rintro (h | h | h) <;> simp [h]

/-- Insertion keeps a list ascending. -/
theorem pairwise_insertAscending (x : Bytes) :
    ∀ {l : List Bytes}, l.Pairwise (· < ·) → (insertAscending x l).Pairwise (· < ·)
  | [], _ => by simp [insertAscending]
  | y :: ys, h => by
    obtain ⟨hy, hys⟩ := List.pairwise_cons.1 h
    unfold insertAscending
    split
    · rename_i hx
      refine List.pairwise_cons.2 ⟨fun z hz => ?_, h⟩
      rcases List.mem_cons.1 hz with rfl | hz
      · exact hx
      · exact List.lt_trans hx (hy z hz)
    · split
      · exact h
      · rename_i hlt hne
        refine List.pairwise_cons.2 ⟨fun z hz => ?_, pairwise_insertAscending x hys⟩
        rcases mem_insertAscending.1 hz with rfl | hz
        · exact Decidable.byContradiction fun hn => hne (List.le_antisymm hn hlt)
        · exact hy z hz

/-! ### Sets -/

/-- A set of names, as its members in ascending order; the empty name is no member. -/
structure NameSet where
  items : List Bytes
  ascending : items.Pairwise (· < ·)
  named : [] ∉ items
  deriving DecidableEq

namespace NameSet

/-- The set without members. -/
def empty : NameSet := ⟨[], .nil, List.not_mem_nil⟩

instance : Inhabited NameSet := ⟨empty⟩

/-- The set with a name added; the empty name is left out. -/
def add (s : NameSet) (name : Bytes) : NameSet :=
  if h : name = [] then s
  else
    ⟨insertAscending name s.items, pairwise_insertAscending name s.ascending, fun hm =>
      (mem_insertAscending.1 hm).elim (fun he => h he.symm) s.named⟩

/-- The set with all names of a list added. -/
def addAll (s : NameSet) (names : List Bytes) : NameSet := names.foldl add s

/-- The set of the names of a list. -/
def ofList (names : List Bytes) : NameSet := empty.addAll names

/-- Whether a name is a member. -/
def has (s : NameSet) (name : Bytes) : Bool := s.items.contains name

end NameSet
end KustoFacts
