import KustoFacts.NameSet

/-!
    What was joined, by kind of join. The kinds stand in strictly ascending order, so that two maps
    with the same entries are equal. -/

namespace KustoFacts

/-- Entries with their kinds ascending. -/
abbrev JoinEntries := List (Bytes × NameSet)

namespace JoinEntries

/-- Targets merged into the entry of a kind, which is made if there is none. -/
def merge (kind : Bytes) (targets : List Bytes) : JoinEntries → JoinEntries
  | [] => [(kind, .ofList targets)]
  | (k, set) :: rest =>
    if kind < k then (kind, .ofList targets) :: (k, set) :: rest
    else if kind = k then (k, set.addAll targets) :: rest
    else (k, set) :: merge kind targets rest

/-- A merge leaves the kinds as inserting the new one leaves them. -/
theorem map_fst_merge (kind : Bytes) (targets : List Bytes) :
    ∀ l : JoinEntries, (merge kind targets l).map (·.1) = insertAscending kind (l.map (·.1))
  | [] => rfl
  | (k, set) :: rest => by
    unfold merge
    simp only [List.map_cons, insertAscending]
    split
    · rfl
    · split
      · rfl
      · simp [map_fst_merge kind targets rest]

end JoinEntries

/-- The targets of each kind of join. -/
structure Joins where
  entries : JoinEntries
  ascending : (entries.map (·.1)).Pairwise (· < ·)
  deriving DecidableEq

namespace Joins

/-- The kinds of no entries ascend. -/
theorem pairwise_no_kinds : (([] : JoinEntries).map (·.1)).Pairwise (· < ·) := .nil

/-- Nothing was joined. -/
def empty : Joins := ⟨[], pairwise_no_kinds⟩

instance : Inhabited Joins := ⟨empty⟩

/-- Targets added to a kind; the kind gets an entry even if there are none. -/
def add (j : Joins) (kind : Bytes) (targets : List Bytes) : Joins :=
  ⟨j.entries.merge kind targets, by
    rw [JoinEntries.map_fst_merge]; exact pairwise_insertAscending kind j.ascending⟩

/-- The joins with the entries of a list added one by one. -/
def addAll (j : Joins) (entries : JoinEntries) : Joins :=
  entries.foldl (fun j (kind, targets) => j.add kind targets.items) j

/-- The targets of a kind. -/
def get? (j : Joins) (kind : Bytes) : Option NameSet := j.entries.lookup kind

end Joins
end KustoFacts
