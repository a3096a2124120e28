import KustoFacts.Proofs.Facts.Union

/-!
    Facts part by part. Facts are made by adding findings one after another, and what comes out can
    be said without the order: each set has the names that the findings of its sort give, without
    the empty one, and a kind of join has an entry if there is a finding for it, with the targets of
    all of these together. -/

namespace KustoFacts

theorem NameSet.mem_ofList {names : List Bytes} {x : Bytes} :
    x ∈ (ofList names).items ↔ x ≠ [] ∧ x ∈ names := by
  rw [ofList, mem_addAll]
  exact or_iff_right List.not_mem_nil

theorem NameSet.ofList_append (xs ys : List Bytes) : ofList (xs ++ ys) = (ofList xs).addAll ys :=
  List.foldl_append

/-! ### Sorts of findings -/

namespace Finding

/-- The function that is called. -/
def call? : Finding → Option Bytes
  | .call name => some name
  | _ => none

/-- The table that is read. -/
def table? : Finding → Option Bytes
  | .table name => some name
  | _ => none

/-- The operator that is applied. -/
def operator? : Finding → Option Bytes
  | .operator word => some word
  | _ => none

/-- What is joined, with the kind of join. -/
def join? : Finding → Option (Bytes × List Bytes)
  | .join kind targets => some (kind, targets)
  | _ => none

variable {f : Finding} {name : Bytes} {joined : Bytes × List Bytes}

theorem call?_eq_some : f.call? = some name ↔ f = .call name := by cases f <;> simp [call?]

theorem table?_eq_some : f.table? = some name ↔ f = .table name := by cases f <;> simp [table?]

theorem operator?_eq_some : f.operator? = some name ↔ f = .operator name := by
  cases f <;> simp [operator?]

theorem join?_eq_some : f.join? = some joined ↔ f = .join joined.1 joined.2 := by
  cases f <;> simp [join?, Prod.ext_iff]

/-- The findings of a sort, given by what tells the sort and by what makes a finding of it. -/
theorem mem_filterMap_iff {α : Type} {sort : Finding → Option α} {make : α → Finding}
    (h : ∀ {f a}, sort f = some a ↔ f = make a) {found : List Finding} {a : α} :
    a ∈ found.filterMap sort ↔ make a ∈ found := by
  simp only [List.mem_filterMap, h, exists_eq_right]

end Finding

/-! ### Joins -/

namespace Joins

/-- The joins with targets of some kinds added one after another. -/
def addTargets (j : Joins) (joined : List (Bytes × List Bytes)) : Joins :=
  joined.foldl (fun j (kind, targets) => j.add kind targets) j

/-- The joins with the targets of a list. -/
def ofList (joined : List (Bytes × List Bytes)) : Joins := empty.addTargets joined

/-- The targets of a kind, in the order in which they were added. -/
def targetsOf (kind : Bytes) (joined : List (Bytes × List Bytes)) : List Bytes :=
  (joined.filter (·.1 = kind)).flatMap (·.2)

variable {kind : Bytes} {joined : List (Bytes × List Bytes)}

theorem mem_targetsOf {name : Bytes} :
    name ∈ targetsOf kind joined ↔ ∃ targets, (kind, targets) ∈ joined ∧ name ∈ targets := by
  simp only [targetsOf, List.mem_flatMap, List.mem_filter, decide_eq_true_eq]
  constructor
  · rintro ⟨⟨k, targets⟩, ⟨hmem, rfl⟩, hname⟩
    exact ⟨targets, hmem, hname⟩
  · rintro ⟨targets, hmem, hname⟩
    exact ⟨(kind, targets), ⟨hmem, rfl⟩, hname⟩

/-- A kind has all targets that were added for it, if any were. -/
theorem get?_ofList (kind : Bytes) (joined : List (Bytes × List Bytes)) :
    (ofList joined).get? kind =
      if kind ∈ joined.map (·.1) then some (.ofList (targetsOf kind joined)) else none := by
  induction joined using List.reverseRecOn with
  | nil => rfl
  | append_singleton joined last ih =>
    obtain ⟨k, targets⟩ := last
    have hlast : ofList (joined ++ [(k, targets)]) = (ofList joined).add k targets :=
      List.foldl_append
    rw [hlast, get?_add]
    by_cases hk : kind = k
    · subst hk
      have hbefore : ((ofList joined).get? kind).getD .empty = .ofList (targetsOf kind joined) := by
        rw [ih]
        split
        next => rfl
        next hnone =>
          have htargets : targetsOf kind joined = [] := by
            refine List.eq_nil_iff_forall_not_mem.2 fun name hname => hnone ?_
            obtain ⟨targets, hmem, -⟩ := mem_targetsOf.1 hname
            exact List.mem_map_of_mem hmem
          rw [htargets]
          rfl
      have htargets : targetsOf kind (joined ++ [(kind, targets)]) =
          targetsOf kind joined ++ targets := by simp [targetsOf]
      rw [if_pos rfl, if_pos (by simp), htargets, NameSet.ofList_append, hbefore]
    · have htargets : targetsOf kind (joined ++ [(k, targets)]) = targetsOf kind joined := by
        simp [targetsOf, Ne.symm hk]
      rw [if_neg hk, ih, htargets]
      simp only [List.map_append, List.map_cons, List.map_nil, List.mem_append, List.mem_singleton,
        hk, or_false]

/-- What a kind has, member by member. -/
theorem get?_ofList_eq_some {set : NameSet} (h : (ofList joined).get? kind = some set) :
    (∃ targets, (kind, targets) ∈ joined) ∧
      ∀ name, name ∈ set.items ↔
        name ≠ [] ∧ ∃ targets, (kind, targets) ∈ joined ∧ name ∈ targets := by
  rw [get?_ofList] at h
  split at h
  next hkind =>
    cases h
    obtain ⟨⟨k, targets⟩, hmem, rfl⟩ := List.mem_map.1 hkind
    exact ⟨⟨targets, hmem⟩, fun name => by rw [NameSet.mem_ofList, mem_targetsOf]⟩
  next => cases h

end Joins

/-! ### Facts -/

namespace Facts

variable {id : Bytes} {found : List Finding} {name kind : Bytes}

/-- Findings add to each part of facts what they give of its sort. -/
theorem foldl_add (found : List Finding) (f : Facts) :
    found.foldl add f =
      { id := f.id
        functionCalls := f.functionCalls.addAll (found.filterMap Finding.call?)
        joins := f.joins.addTargets (found.filterMap Finding.join?)
        operators := f.operators.addAll (found.filterMap Finding.operator?)
        tables := f.tables.addAll (found.filterMap Finding.table?) } := by
  induction found generalizing f with
  | nil => rfl
  | cons x found ih =>
    rw [List.foldl_cons, ih]
    cases x <;> rfl

/-- The facts that findings give are those of each sort. -/
theorem ofFindings_eq (id : Bytes) (found : List Finding) :
    ofFindings id found =
      { id := id
        functionCalls := .ofList (found.filterMap Finding.call?)
        joins := .ofList (found.filterMap Finding.join?)
        operators := .ofList (found.filterMap Finding.operator?)
        tables := .ofList (found.filterMap Finding.table?) } := foldl_add found (.empty id)

theorem mem_functionCalls_ofFindings :
    name ∈ (ofFindings id found).functionCalls.items ↔ name ≠ [] ∧ .call name ∈ found := by
  rw [ofFindings_eq, NameSet.mem_ofList, Finding.mem_filterMap_iff Finding.call?_eq_some]

theorem mem_operators_ofFindings :
    name ∈ (ofFindings id found).operators.items ↔ name ≠ [] ∧ .operator name ∈ found := by
  rw [ofFindings_eq, NameSet.mem_ofList, Finding.mem_filterMap_iff Finding.operator?_eq_some]

theorem mem_tables_ofFindings (id : Bytes) (found : List Finding) (name : Bytes) :
    name ∈ (ofFindings id found).tables.items ↔ name ≠ [] ∧ .table name ∈ found := by
  rw [ofFindings_eq, NameSet.mem_ofList, Finding.mem_filterMap_iff Finding.table?_eq_some]

/-- A kind of join is found in some node, and has the targets of all nodes in which it is found. -/
theorem get?_joins_ofFindings {set : NameSet}
    (h : (ofFindings id found).joins.get? kind = some set) :
    (∃ targets, .join kind targets ∈ found) ∧
      ∀ name, name ∈ set.items ↔
        name ≠ [] ∧ ∃ targets, .join kind targets ∈ found ∧ name ∈ targets := by
  have hmem {targets : List Bytes} :
      (kind, targets) ∈ found.filterMap Finding.join? ↔ .join kind targets ∈ found :=
    Finding.mem_filterMap_iff Finding.join?_eq_some
  rw [ofFindings_eq] at h
  simpa only [hmem] using Joins.get?_ofList_eq_some h

end Facts
end KustoFacts
