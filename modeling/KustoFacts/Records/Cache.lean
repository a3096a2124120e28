import KustoFacts.Facts.Basic

/-!
    Caches of facts by key. What a run asks of a cache is a class of its own: whatever answers it can
    stand behind a processor. The one that is used holds a fixed number of entries; the entry whose
    use lies back longest makes room for a new one. -/

namespace KustoFacts

/-- What can be asked of a cache. To look up a key may change the cache, and a cache may drop
    whatever it likes. -/
class FactsCache (σ : Type) where
  /-- The cache without entries that holds at most so many. -/
  empty (capacity : Nat) : σ
  /-- The facts under a key, and the cache after this use of it. -/
  get (cache : σ) (key : UInt64) : Option Facts × σ
  /-- The cache with facts put under a key. -/
  add (cache : σ) (key : UInt64) (facts : Facts) : σ

/-- Entries in the order of their last use, latest first. -/
structure Cache where
  capacity : Nat
  entries : List (UInt64 × Facts)
  deriving DecidableEq

namespace Cache

/-- The entries of a list other than that of a key. -/
def erase (key : UInt64) (entries : List (UInt64 × Facts)) : List (UInt64 × Facts) :=
  entries.filter (·.1 ≠ key)

/-- The facts under a key, whose entry becomes the latest. -/
def get (c : Cache) (key : UInt64) : Option Facts × Cache :=
  match c.entries.lookup key with
  | some facts => (some facts, { c with entries := (key, facts) :: erase key c.entries })
  | none => (none, c)

/-- The cache with facts put under a key. -/
def add (c : Cache) (key : UInt64) (facts : Facts) : Cache :=
  { c with entries := ((key, facts) :: erase key c.entries).take c.capacity }

end Cache

instance : FactsCache Cache where
  empty capacity := ⟨capacity, []⟩
  get := Cache.get
  add := Cache.add

end KustoFacts
