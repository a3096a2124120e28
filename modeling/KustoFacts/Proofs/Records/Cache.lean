import KustoFacts.Records.Cache

/-!
    What makes a cache trustworthy. It may forget, but it never answers with anything but the facts
    that were put under the key last. A cache is told by the history of the calls that made it; the
    cache that is used keeps to the rule, whatever it drops. -/

namespace KustoFacts

/-- A call to a cache. -/
inductive CacheCall where
  | get (key : UInt64)
  | add (key : UInt64) (facts : Facts)

/-- The facts put under a key last, in a history of calls that has the latest first. -/
def lastAdded (key : UInt64) : List CacheCall → Option Facts
  | [] => none
  | .get _ :: earlier => lastAdded key earlier
  | .add k facts :: earlier => if key = k then some facts else lastAdded key earlier

theorem mem_of_lastAdded {key : UInt64} {facts : Facts} {history : List CacheCall}
    (h : lastAdded key history = some facts) : .add key facts ∈ history := by
  induction history with
  | nil => cases h
  | cons call earlier ih =>
    cases call with
    | get k => exact List.mem_cons_of_mem _ (ih h)
    | add k added =>
      rw [lastAdded] at h
      split at h
      · obtain rfl := Option.some.inj h
        simp [*]
      · exact List.mem_cons_of_mem _ (ih h)

namespace FactsCache

/-- A cache after the calls of a history. -/
def after (σ : Type) [FactsCache σ] (capacity : Nat) : List CacheCall → σ
  | [] => empty capacity
  | .get key :: earlier => (get (after σ capacity earlier) key).2
  | .add key facts :: earlier => add (after σ capacity earlier) key facts

/-- For a key, only the facts put under it last are returned. -/
def ReturnsLast (σ : Type) [FactsCache σ] : Prop :=
  ∀ capacity history key facts,
    (get (after σ capacity history) key).1 = some facts → lastAdded key history = some facts

end FactsCache

/-! ### The cache that is used -/

namespace Cache

variable {key k : UInt64} {facts added : Facts}

/-- An entry put in front takes the place of the one that its key had. -/
theorem lookup_front (key k : UInt64) (added : Facts) (entries : List (UInt64 × Facts)) :
    ((k, added) :: erase k entries).lookup key =
      if key = k then some added else entries.lookup key := by
  rw [List.lookup_cons]
  by_cases hkey : key = k
  · simp [hkey]
  · have herase : (erase k entries).lookup key = entries.lookup key := by
      induction entries with
      | nil => rfl
      | cons entry entries ih =>
        rw [erase, List.filter_cons]
        split
        · rw [List.lookup_cons, List.lookup_cons, ← ih, erase]
        · have hne : key ≠ entry.1 := by grind
          rw [List.lookup_cons, beq_false_of_ne hne, ← ih, erase]
    rw [herase, beq_false_of_ne hkey, if_neg hkey]

/-- What is found among the first entries is found among all of them. -/
theorem lookup_of_take {n : Nat} {entries : List (UInt64 × Facts)}
    (h : (entries.take n).lookup key = some facts) : entries.lookup key = some facts := by
  induction entries generalizing n with
  | nil => rwa [List.take_nil] at h
  | cons entry entries ih =>
    cases n with
    | zero => cases h
    | succ n =>
      rw [List.take_succ_cons, List.lookup_cons] at h
      rw [List.lookup_cons]
      split at h
      · exact h
      · exact ih h

theorem get_fst (c : Cache) (key : UInt64) : (c.get key).1 = c.entries.lookup key := by
  rw [get]
  split <;> simp [*]

theorem lookup_get (c : Cache) (key k : UInt64) :
    (c.get k).2.entries.lookup key = c.entries.lookup key := by
  rw [get]
  split
  next found h =>
    rw [lookup_front]
    split
    · simp [*]
    · rfl
  next => rfl

theorem lookup_add {c : Cache} (h : (c.add k added).entries.lookup key = some facts) :
    (if key = k then some added else c.entries.lookup key) = some facts := by
  rw [← lookup_front]
  exact lookup_of_take h

/-- The entries are some of those that were put last. -/
theorem lastAdded_of_lookup {capacity : Nat} {history : List CacheCall}
    (h : (FactsCache.after Cache capacity history).entries.lookup key = some facts) :
    lastAdded key history = some facts := by
  induction history with
  | nil => cases h
  | cons call earlier ih =>
    cases call with
    | get k =>
      refine ih ?_
      rw [← h]
      exact (lookup_get (FactsCache.after Cache capacity earlier) key k).symm
    | add k added =>
      have hadd := lookup_add (c := FactsCache.after Cache capacity earlier) h
      rw [lastAdded]
      split at hadd
      · rw [if_pos ‹_›, hadd]
      · rw [if_neg ‹_›, ih hadd]

theorem returnsLast : FactsCache.ReturnsLast Cache := by
  intro capacity history key facts h
  have hlookup := get_fst (FactsCache.after Cache capacity history) key
  exact lastAdded_of_lookup (hlookup.symm.trans h)

end Cache
end KustoFacts
