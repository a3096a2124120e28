import KustoFacts.Settings.Load
import Mathlib.Data.List.Nodup

/-!
    Trees of settings laid over each other. About a path a tree says nothing, or which tree is there,
    or that the path is closed, by a value that stands on the way to it (`SettingTree.about`). A tree
    that is laid over another one decides about the paths of which it says anything and leaves all
    others to it, and so the highest of several layers that says anything decides
    (`SettingTree.decided_layered`). -/

namespace KustoFacts

/-- What a tree says about a path. -/
inductive Said where
  | nothing
  /-- A value stands on the way. -/
  | closed
  | tree (t : SettingTree)

namespace Said

/-- The tree that is there. -/
def tree? : Said → Option SettingTree
  | tree t => some t
  | _ => none

/-- The value that is there. -/
def value? : Said → Option SettingValue
  | tree (.value v) => some v
  | _ => none

theorem value?_eq_some {s : Said} {v : SettingValue} : s.value? = some v ↔ s = .tree (.value v) := by
  rcases s with _ | _ | ⟨_ | _⟩ <;> simp [value?]

/-- The same is said, but that a section may have other entries. -/
inductive Stays : Said → Said → Prop where
  | closed : Stays closed closed
  | value (v : SettingValue) : Stays (tree (.value v)) (tree (.value v))
  | group (entries entries' : SettingEntries) : Stays (tree (.group entries)) (tree (.group entries'))

theorem Stays.refl {s : Said} (h : s ≠ nothing) : Stays s s := by
  match s with
  | .nothing => exact absurd rfl h
  | .closed => exact .closed
  | .tree (.value v) => exact .value v
  | .tree (.group entries) => exact .group entries entries

end Said

/-! ### Entries -/

theorem lookup_cons_ite {κ α : Type} [BEq κ] [LawfulBEq κ] [DecidableEq κ] (k : κ) (a : α)
    (entries : List (κ × α)) (key : κ) :
    List.lookup key ((k, a) :: entries) = if key = k then some a else entries.lookup key := by
  by_cases h : key = k
  · subst h
    rw [List.lookup_cons_self, if_pos rfl]
  · rw [List.lookup_cons, beq_false_of_ne h, if_neg h]

namespace SettingEntries

variable {entries : SettingEntries} {name key : Bytes} {tree : SettingTree}

theorem mem_of_lookup (h : entries.lookup name = some tree) : (name, tree) ∈ entries := by
  obtain ⟨before, after, rfl, -⟩ := List.lookup_eq_some_iff.1 h
  exact List.mem_append_right _ List.mem_cons_self

theorem lookup_put (entries : SettingEntries) (name key : Bytes) (tree : SettingTree) :
    (entries.put name tree).lookup key = if key = name then some tree else entries.lookup key := by
  induction entries with
  | nil => exact lookup_cons_ite name tree [] key
  | cons e rest ih =>
    obtain ⟨k, t⟩ := e
    rw [put]
    by_cases hk : k = name
    · rw [if_pos hk, lookup_cons_ite, lookup_cons_ite, ← hk]
      by_cases h : key = k <;> simp [h]
    · rw [if_neg hk, lookup_cons_ite, lookup_cons_ite, ih]
      by_cases h : key = k
      · have hne : key ≠ name := fun heq => hk (h.symm.trans heq)
        rw [if_pos h, if_neg hne, if_pos h]
      · rw [if_neg h, if_neg h]

theorem mem_put {e : Bytes × SettingTree} (h : e ∈ entries.put name tree) :
    e = (name, tree) ∨ e ∈ entries := by
  induction entries with
  | nil => exact .inl (List.mem_singleton.1 h)
  | cons e' rest ih =>
    rw [put] at h
    split at h
    next hname =>
      rcases List.mem_cons.1 h with rfl | h
      · exact .inl (by rw [hname])
      · exact .inr (List.mem_cons_of_mem _ h)
    next =>
      rcases List.mem_cons.1 h with rfl | h
      · exact .inr List.mem_cons_self
      · exact (ih h).imp_right (List.mem_cons_of_mem _)

/-- Setting an entry adds its name unless it is there. -/
theorem names_put (entries : SettingEntries) (name : Bytes) (tree : SettingTree) :
    (entries.put name tree).map Prod.fst =
      if name ∈ entries.map Prod.fst then entries.map Prod.fst
      else entries.map Prod.fst ++ [name] := by
  induction entries with
  | nil => rfl
  | cons e rest ih =>
    obtain ⟨k, t⟩ := e
    rw [put]
    by_cases hk : k = name
    · simp [hk]
    · have hne : name ≠ k := fun h => hk h.symm
      rw [if_neg hk, List.map_cons, ih]
      by_cases hmem : name ∈ rest.map Prod.fst
      · simp only [List.map_cons, List.mem_cons, hmem, or_true, if_true]
      · simp only [List.map_cons, List.mem_cons, hne, hmem, or_self, if_false, List.cons_append]

end SettingEntries

theorem lookup_map_snd {κ α β : Type} [BEq κ] [LawfulBEq κ] [DecidableEq κ] (f : α → β) (key : κ)
    (entries : List (κ × α)) :
    (entries.map fun e => (e.1, f e.2)).lookup key = (entries.lookup key).map f := by
  induction entries with
  | nil => rfl
  | cons e rest ih =>
    rw [List.map_cons, lookup_cons_ite, lookup_cons_ite, ih]
    split <;> rfl

/-! ### Trees with distinct names -/

namespace SettingTree

variable {upper lower t : SettingTree} {entries : SettingEntries} {name : Bytes} {path : List Bytes}

/-- No section has two entries of one name. -/
inductive Distinct : SettingTree → Prop where
  | value (v : SettingValue) : Distinct (.value v)
  | group {entries : SettingEntries} (names : (entries.map Prod.fst).Nodup)
      (inner : ∀ e ∈ entries, Distinct e.2) : Distinct (.group entries)

namespace Distinct

theorem empty : Distinct empty := .group List.nodup_nil nofun

theorem names (h : Distinct (.group entries)) : (entries.map Prod.fst).Nodup := by
  cases h with
  | group names _ => exact names

theorem inner (h : Distinct (.group entries)) : ∀ e ∈ entries, Distinct e.2 := by
  cases h with
  | group _ inner => exact inner

theorem of_lookup (h : Distinct (.group entries)) (ht : entries.lookup name = some t) :
    t.Distinct := h.inner _ (SettingEntries.mem_of_lookup ht)

theorem put (h : Distinct (.group entries)) (ht : t.Distinct) :
    Distinct (.group (entries.put name t)) := by
  refine .group ?_ fun e he => ?_
  · rw [SettingEntries.names_put]
    split
    · exact h.names
    next hname =>
      rw [← List.concat_eq_append]
      exact List.Nodup.concat hname h.names
  · rcases SettingEntries.mem_put he with rfl | he
    · exact ht
    · exact h.inner e he

end Distinct

/-! ### What is said -/

/-- What a tree says about a path. -/
def about : SettingTree → List Bytes → Said
  | t, [] => .tree t
  | .value _, _ :: _ => .closed
  | .group entries, name :: rest =>
    match entries.lookup name with
    | some t => t.about rest
    | none => .nothing

theorem about_of_lookup (h : entries.lookup name = some t) (rest : List Bytes) :
    (group entries).about (name :: rest) = t.about rest := by
  rw [about, h]

theorem about_of_lookup_none (h : entries.lookup name = none) (rest : List Bytes) :
    (group entries).about (name :: rest) = .nothing := by
  rw [about, h]

/-- An entry is laid over the one of its name, if there is one. -/
def onto (tree : SettingTree) : Option SettingTree → SettingTree
  | some lower => tree.laidOver lower
  | none => tree

theorem lookup_entriesOver (upper below : SettingEntries) (h : (upper.map Prod.fst).Nodup)
    (name : Bytes) : (entriesOver upper below).lookup name =
      match upper.lookup name with
      | some t => some (t.onto (below.lookup name))
      | none => below.lookup name := by
  induction upper generalizing below with
  | nil => rw [entriesOver]; rfl
  | cons e rest ih =>
    obtain ⟨k, t⟩ := e
    obtain ⟨hk, hrest⟩ := List.nodup_cons.1 h
    have hmerged : entriesOver ((k, t) :: rest) below =
        entriesOver rest (below.put k (t.onto (below.lookup k))) := by
      rw [entriesOver]
      cases below.lookup k <;> rfl
    rw [hmerged, ih _ hrest, SettingEntries.lookup_put, lookup_cons_ite]
    by_cases hname : name = k
    · have habsent : rest.lookup name = none := by
        refine List.lookup_eq_none_iff.2 fun e he => ?_
        rw [bne_iff_ne, hname]
        exact fun heq => hk (List.mem_map.2 ⟨e, he, heq.symm⟩)
      rw [if_pos hname, if_pos hname, habsent, hname]
    · rw [if_neg hname, if_neg hname]

/-! ### One tree over another -/

/-- What the upper tree says stays. -/
theorem stays_laidOver (h : upper.Distinct) (lower : SettingTree) (hs : upper.about path ≠ .nothing) :
    (upper.about path).Stays ((upper.laidOver lower).about path) := by
  induction path generalizing upper lower with
  | nil =>
    cases upper with
    | value v => exact .value v
    | group entries => cases lower <;> exact .group _ _
  | cons name rest ih =>
    cases upper with
    | value v => exact .closed
    | group entries =>
      cases hlookup : entries.lookup name with
      | none => exact absurd (about_of_lookup_none hlookup rest) hs
      | some t =>
        rw [about_of_lookup hlookup] at hs ⊢
        cases lower with
        | value v =>
          rw [laidOver, about_of_lookup hlookup]
          · exact .refl hs
          · nofun
        | group below =>
          have hmerged := lookup_entriesOver entries below h.names name
          rw [hlookup] at hmerged
          rw [laidOver, about_of_lookup hmerged]
          cases below.lookup name with
          | none => exact .refl hs
          | some l => exact ih (h.of_lookup hlookup) l hs

/-- Where the upper tree says nothing, the lower one is seen. -/
theorem tree?_about_laidOver (h : upper.Distinct) (lower : SettingTree)
    (hs : upper.about path = .nothing) :
    ((upper.laidOver lower).about path).tree? = (lower.about path).tree? := by
  induction path generalizing upper lower with
  | nil => cases hs
  | cons name rest ih =>
    cases upper with
    | value v => cases hs
    | group entries =>
      cases lower with
      | value v =>
        rw [laidOver, hs]
        · rfl
        · nofun
      | group below =>
        have hmerged := lookup_entriesOver entries below h.names name
        cases hlookup : entries.lookup name with
        | none =>
          rw [hlookup] at hmerged
          rw [laidOver, about, about, hmerged]
        | some t =>
          rw [hlookup] at hmerged
          rw [about_of_lookup hlookup] at hs
          rw [laidOver, about_of_lookup hmerged]
          cases hbelow : below.lookup name with
          | none => rw [about_of_lookup_none hbelow, onto, hs]
          | some l =>
            rw [about_of_lookup hbelow, onto]
            exact ih (h.of_lookup hlookup) l hs

/-! ### Several layers -/

/-- Layers that say nothing leave what is below them. -/
theorem tree?_about_foldl {layers : List SettingTree} (hd : ∀ t ∈ layers, t.Distinct)
    (hs : ∀ t ∈ layers, t.about path = .nothing) (base : SettingTree) :
    ((layers.foldl (fun lower upper => upper.laidOver lower) base).about path).tree? =
      (base.about path).tree? := by
  induction layers generalizing base with
  | nil => rfl
  | cons t rest ih =>
    obtain ⟨ht, hrest⟩ := List.forall_mem_cons.1 hd
    obtain ⟨hst, hsrest⟩ := List.forall_mem_cons.1 hs
    rw [List.foldl_cons, ih hrest hsrest, tree?_about_laidOver ht base hst]

/-- The highest layer that says anything about a path decides what is there. The layers are given
    with the highest first. -/
theorem decided_layered {above below : List SettingTree} {layer : SettingTree}
    (hd : ∀ t ∈ layer :: above, t.Distinct) (habove : ∀ t ∈ above, t.about path = .nothing)
    (hs : layer.about path ≠ .nothing) :
    ∃ s, (layer.about path).Stays s ∧
      ((layered (above ++ layer :: below).reverse).about path).tree? = s.tree? := by
  obtain ⟨hlayer, hd⟩ := List.forall_mem_cons.1 hd
  refine ⟨_, stays_laidOver hlayer (layered below.reverse) hs, ?_⟩
  rw [List.reverse_append, List.reverse_cons, List.append_assoc, layered, List.foldl_append]
  exact tree?_about_foldl (fun t ht => hd t (List.mem_reverse.1 ht))
    (fun t ht => habove t (List.mem_reverse.1 ht)) _

end SettingTree

/-! ### What is found in a tree -/

namespace SettingTree

variable {t t' : SettingTree} {entries : SettingEntries} {path rest : List Bytes} {name : Bytes}
  {v : SettingValue}

theorem tree?_eq_some {s : Said} : s.tree? = some t ↔ s = .tree t := by
  cases s <;> simp [Said.tree?]

theorem about_append (h : t.about path = .tree t') (rest : List Bytes) :
    t.about (path ++ rest) = t'.about rest := by
  induction path generalizing t with
  | nil =>
    cases h
    rfl
  | cons name path ih =>
    cases t with
    | value v => cases h
    | group entries =>
      rw [List.cons_append]
      cases hlookup : entries.lookup name with
      | none =>
        rw [about_of_lookup_none hlookup] at h
        cases h
      | some t =>
        rw [about_of_lookup hlookup] at h ⊢
        exact ih h

/-- What stands under names in small letters is found, if it is a value. -/
theorem found?_of_about (h : t.about path = .tree t') (hfound : t.found? path = some v) :
    t' = .value v := by
  induction path generalizing t with
  | nil =>
    cases h
    cases t' with
    | value w =>
      cases hfound
      rfl
    | group entries => cases hfound
  | cons name path ih =>
    cases t with
    | value w => cases h
    | group entries =>
      cases hlookup : entries.lookup name with
      | none =>
        rw [about_of_lookup_none hlookup] at h
        cases h
      | some t =>
        rw [about_of_lookup hlookup] at h
        rw [found?, SettingEntries.entry?, hlookup] at hfound
        exact ih h hfound

/-! ### The highest layer -/

/-- Of several layers that do not all pass over a path, one is the highest that does not. -/
theorem exists_highest {layers : List SettingTree} (h : ∃ t ∈ layers, t.about path ≠ .nothing) :
    ∃ above layer below, layers = above ++ layer :: below ∧
      (∀ t ∈ above, t.about path = .nothing) ∧ layer.about path ≠ .nothing := by
  induction layers with
  | nil => simp at h
  | cons t rest ih =>
    by_cases ht : t.about path = .nothing
    · obtain ⟨u, hu, hne⟩ := h
      rcases List.mem_cons.1 hu with rfl | hu
      · exact absurd ht hne
      · obtain ⟨above, layer, below, rfl, habove, hlayer⟩ := ih ⟨u, hu, hne⟩
        exact ⟨t :: above, layer, below, rfl, List.forall_mem_cons.2 ⟨ht, habove⟩, hlayer⟩
    · exact ⟨[], t, rest, rfl, nofun, ht⟩

/-- The highest of several layers that do not all pass over a path decides what is there. -/
theorem decided_highest {layers : List SettingTree} (hd : ∀ t ∈ layers, t.Distinct)
    (h : ∃ t ∈ layers, t.about path ≠ .nothing) :
    ∃ above layer below, layers = above ++ layer :: below ∧
      (∀ t ∈ above, t.about path = .nothing) ∧ layer.about path ≠ .nothing ∧
      ∃ said, (layer.about path).Stays said ∧
        ((layered layers.reverse).about path).tree? = said.tree? := by
  obtain ⟨above, layer, below, rfl, habove, hlayer⟩ := exists_highest h
  have hd' : ∀ t ∈ layer :: above, t.Distinct := by
    refine List.forall_mem_cons.2 ⟨hd _ (List.mem_append_right _ List.mem_cons_self), fun t ht => ?_⟩
    exact hd _ (List.mem_append_left _ ht)
  exact ⟨above, layer, below, rfl, habove, hlayer, decided_layered hd' habove hlayer⟩

end SettingTree

end KustoFacts
