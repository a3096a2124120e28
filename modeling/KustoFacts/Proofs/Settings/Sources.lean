import KustoFacts.Proofs.Settings.Layers
import Mathlib.Data.List.Induction
import Mathlib.Data.Option.Basic

/-!
    The trees of the sources. No section of them has two entries of one name, whatever a document or
    an environment holds. A tree that is made of values at paths says of a path what was set there
    last, as long as no path leads on from another one (`SettingTree.about_ofPaths`). -/

namespace KustoFacts

/-! ### Values at paths -/

namespace SettingTree

variable {entries : SettingEntries} {path q : List Bytes} {t : SettingTree} {v w : SettingValue}

theorem Distinct.place (h : Distinct (.group entries)) (ht : t.Distinct) (path : List Bytes) :
    Distinct (.group (entries.place path t)) := by
  induction path generalizing entries with
  | nil => exact h
  | cons name rest ih =>
    cases rest with
    | nil => exact h.put ht
    | cons next rest =>
      rw [SettingEntries.place]
      split
      next hlookup => exact h.put (ih (h.of_lookup hlookup))
      next => exact ih h
      next => exact h.put (ih .empty)

theorem distinct_ofPaths (values : List (List Bytes × SettingValue)) : (ofPaths values).Distinct := by
  rw [ofPaths]
  exact List.foldlRecOn (motive := fun entries => Distinct (.group entries)) values _ .empty
    fun _ h e _ => h.place (.value e.2) e.1

theorem about_put (entries : SettingEntries) (name key : Bytes) (t : SettingTree)
    (rest : List Bytes) : (group (entries.put name t)).about (key :: rest) =
      if key = name then t.about rest else (group entries).about (key :: rest) := by
  rw [about, SettingEntries.lookup_put]
  by_cases h : key = name
  · rw [if_pos h, if_pos h]
  · rw [if_neg h, if_neg h, about]

theorem about_value (v : SettingValue) (hpath : path ≠ []) : (value v).about path = .closed := by
  cases path with
  | nil => exact absurd rfl hpath
  | cons => rfl

/-- A path of several names is set in the section of the first one, which is made if there is none. -/
theorem place_cons {name : Bytes} {rest : List Bytes} (hrest : rest ≠ [])
    (hopen : (group entries).about (name :: rest) ≠ .closed) (t : SettingTree) :
    ∃ inner : SettingEntries,
      entries.place (name :: rest) t = entries.put name (.group (inner.place rest t)) ∧
      (group inner).about rest ≠ .closed ∧
      ∀ q, q ≠ [] → (group entries).about (name :: q) = (group inner).about q := by
  obtain ⟨next, rest, rfl⟩ := List.exists_cons_of_ne_nil hrest
  rw [SettingEntries.place]
  rw [about] at hopen
  cases hlookup : entries.lookup name with
  | none =>
    refine ⟨[], rfl, ?_, fun q hq => ?_⟩
    · intro hclosed
      cases hclosed
    · obtain ⟨key, q, rfl⟩ := List.exists_cons_of_ne_nil hq
      rw [about_of_lookup_none hlookup]
      rfl
  | some t' =>
    rw [hlookup] at hopen
    cases t' with
    | value v => exact absurd (about_value v hrest) hopen
    | group inner => exact ⟨inner, rfl, hopen, fun q _ => about_of_lookup hlookup q⟩

/-- After a value has been set, it is at its path, and the other values are those at paths that
    neither lead to that one nor lead on from it. -/
theorem about_place (hpath : path ≠ []) (hopen : (group entries).about path ≠ .closed) :
    (group (entries.place path (.value w))).about q = .tree (.value v) ↔
      q = path ∧ v = w ∨
        ¬q <+: path ∧ ¬path <+: q ∧ (group entries).about q = .tree (.value v) := by
  induction path generalizing entries q with
  | nil => exact absurd rfl hpath
  | cons name rest ih =>
    cases q with
    | nil => simp [about]
    | cons key q =>
      by_cases hrest : rest = []
      · subst hrest
        rw [SettingEntries.place, about_put]
        by_cases hkey : key = name
        · subst hkey
          cases q <;> simp [about, eq_comm]
        · simp [hkey, Ne.symm hkey]
      · obtain ⟨inner, hplace, hinner, habout⟩ := place_cons hrest hopen (.value w)
        rw [hplace, about_put]
        by_cases hkey : key = name
        · subst hkey
          by_cases hq : q = []
          · subst hq
            simp [about, hrest, Ne.symm hrest]
          · rw [if_pos rfl, ih hrest hinner, habout q hq, List.cons.injEq]
            simp only [true_and, List.cons_prefix_cons]
        · simp [hkey, Ne.symm hkey]

/-- A path is closed by a value at the beginning of it. -/
theorem exists_value_of_closed (h : t.about path = .closed) :
    ∃ r v, r <+: path ∧ r ≠ path ∧ t.about r = .tree (.value v) := by
  induction path generalizing t with
  | nil => cases h
  | cons name rest ih =>
    cases t with
    | value v => exact ⟨[], v, List.nil_prefix, nofun, rfl⟩
    | group entries =>
      rw [about] at h
      cases hlookup : entries.lookup name with
      | none =>
        rw [hlookup] at h
        cases h
      | some t =>
        rw [hlookup] at h
        obtain ⟨r, v, hr, hne, hvalue⟩ := ih h
        refine ⟨name :: r, v, List.cons_prefix_cons.2 ⟨rfl, hr⟩, fun heq => ?_, ?_⟩
        · exact hne (List.cons.inj heq).2
        · rw [about_of_lookup hlookup, hvalue]

/-- No path leads on from another one. -/
def Unambiguous {α : Type} (values : List (List Bytes × α)) : Prop :=
  ∀ x ∈ values, ∀ y ∈ values, x.1 <+: y.1 → x.1 = y.1

/-- A tree of values at paths says what was set last. -/
theorem about_ofPaths {values : List (List Bytes × SettingValue)} (hpaths : ∀ e ∈ values, e.1 ≠ [])
    (hclear : Unambiguous values) :
    (ofPaths values).about q = .tree (.value v) ↔ values.reverse.lookup q = some v := by
  induction values using List.reverseRecOn generalizing q v with
  | nil => cases q <;> exact ⟨nofun, nofun⟩
  | append_singleton values e ih =>
    obtain ⟨path, w⟩ := e
    have hmem : ∀ x ∈ values, x ∈ values ++ [(path, w)] := fun _ => List.mem_append_left _
    have hlast : (path, w) ∈ values ++ [(path, w)] := List.mem_append_right _ List.mem_cons_self
    have hbefore {q : List Bytes} {v : SettingValue} :
        (ofPaths values).about q = .tree (.value v) ↔ values.reverse.lookup q = some v :=
      ih (fun x hx => hpaths x (hmem x hx)) fun x hx y hy => hclear x (hmem x hx) y (hmem y hy)
    have hapart {q : List Bytes} {v : SettingValue} (h : values.reverse.lookup q = some v) :
        (q <+: path → q = path) ∧ (path <+: q → path = q) := by
      obtain ⟨before, after, heq, -⟩ := List.lookup_eq_some_iff.1 h
      have hv : (q, v) ∈ values := by
        rw [← List.mem_reverse, heq]
        exact List.mem_append_right _ List.mem_cons_self
      exact ⟨hclear _ (hmem _ hv) _ hlast, hclear _ hlast _ (hmem _ hv)⟩
    have hopen : (ofPaths values).about path ≠ .closed := by
      intro hclosed
      obtain ⟨r, v, hr, hne, hvalue⟩ := exists_value_of_closed hclosed
      exact hne ((hapart (hbefore.1 hvalue)).1 hr)
    have hplace : ofPaths (values ++ [(path, w)]) = .group (SettingEntries.place
        (values.foldl (fun entries e => entries.place e.1 (.value e.2)) []) path (.value w)) := by
      rw [ofPaths, List.foldl_append]
      rfl
    rw [hplace, about_place (hpaths _ hlast) hopen, ← ofPaths, hbefore, List.reverse_append,
      List.reverse_singleton, List.singleton_append, lookup_cons_ite]
    by_cases hsame : q = path
    · simp [hsame, eq_comm]
    · simp only [hsame, false_and, false_or, if_false]
      refine ⟨fun h => h.2.2, fun h => ⟨fun hq => hsame ((hapart h).1 hq), fun hq => ?_, h⟩⟩
      exact hsame ((hapart h).2 hq).symm

end SettingTree

/-! ### Documents -/

namespace Decode

variable {α β : Type} {m : Decode α} {k : α → Decode β} {Q : α → Prop} {R : β → Prop}

/-- What is made of part of a document has a property, if there is no fault. -/
def Gives (m : Decode α) (Q : α → Prop) : Prop := ∀ e r, m.run e = some r → Q r.1

theorem Gives.pure {a : α} (h : Q a) : Gives (Pure.pure a) Q := by
  intro e r hr
  cases hr
  exact h

theorem Gives.failure : Gives (α := α) Alternative.failure Q := by
  intro e r hr
  cases hr

theorem Gives.bind (hm : Gives m Q) (hk : ∀ a, Q a → Gives (k a) R) : Gives (m >>= k) R := by
  intro e r hr
  rw [StateT.run_bind, Option.bind_eq_bind, Option.bind_eq_some_iff] at hr
  obtain ⟨r', hm', hr⟩ := hr
  exact hk r'.1 (hm e r' hm') r'.2 r hr

/-- Nothing is asked of the first step. -/
theorem Gives.after (hk : ∀ a, Gives (k a) R) : Gives (m >>= k) R :=
  .bind (Q := fun _ => True) (fun _ _ _ => trivial) fun a _ => hk a

open SettingTree (Distinct)

mutual

/-- Maps are made by setting entries, so that no name is there twice. -/
theorem gives_tree (root aliased : Bool) : ∀ n : Yaml.Node, Gives (tree root aliased n) Distinct
  | .scalar tag plain text => by
    rw [tree]
    refine .after fun _ => ?_
    split
    · exact .failure
    · exact .pure (.value _)
  | .list items => by
    rw [tree]
    exact .after fun _ => .after fun _ => .pure (.value _)
  | .map entries => by
    rw [tree]
    refine .after fun _ => .after fun _ => ?_
    refine .bind (gives_ownEntries _ aliased false .empty entries) fun own hown => .after fun _ => ?_
    exact .bind (gives_mergedEntries _ aliased hown entries) fun _ h => .pure h
  | .alias _ n => by
    rw [tree]
    exact .after fun _ => gives_tree false true n
  | .loop _ _ => by
    rw [tree]
    exact .failure

theorem gives_ownEntries (nameless : Option Bytes) (aliased taken : Bool) {done : SettingEntries}
    (h : Distinct (.group done)) : ∀ entries : List (Yaml.Node × Yaml.Node),
      Gives (ownEntries nameless aliased taken done entries) fun es => Distinct (.group es)
  | [] => by
    rw [ownEntries]
    exact .pure h
  | (key, node) :: rest => by
    rw [ownEntries]
    split
    · exact gives_ownEntries nameless aliased taken h rest
    refine .after fun name => ?_
    split
    · exact gives_ownEntries nameless aliased taken h rest
    · split
      · exact gives_ownEntries nameless aliased taken h rest
      · exact .bind (gives_tree false aliased node) fun _ ht =>
          gives_ownEntries nameless aliased taken (h.put ht) rest

theorem gives_mergedEntries (nameless : Option Bytes) (aliased : Bool) {done : SettingEntries}
    (h : Distinct (.group done)) : ∀ entries : List (Yaml.Node × Yaml.Node),
      Gives (mergedEntries nameless aliased done entries) fun es => Distinct (.group es)
  | [] => by
    rw [mergedEntries]
    exact .pure h
  | (key, node) :: rest => by
    rw [mergedEntries]
    split
    · exact gives_sourceEntries nameless aliased true h node
    · exact gives_mergedEntries nameless aliased h rest

theorem gives_sourceEntries (nameless : Option Bytes) (aliased lists : Bool) {done : SettingEntries}
    (h : Distinct (.group done)) : ∀ n : Yaml.Node,
      Gives (sourceEntries nameless aliased lists done n) fun es => Distinct (.group es)
  | .map entries => by
    rw [sourceEntries]
    refine .after fun _ => .after fun _ => ?_
    exact .bind (gives_ownEntries nameless aliased true h entries) fun _ hown =>
      gives_mergedEntries nameless aliased hown entries
  | .alias _ n => by
    rw [sourceEntries]
    exact .after fun _ => gives_sourceEntries nameless true false h n
  | .list items => by
    rw [sourceEntries]
    split
    · exact gives_sourcesEntries nameless aliased h items
    · exact .failure
  | .scalar _ _ _ => by
    rw [sourceEntries]
    · exact .failure
    all_goals nofun
  | .loop _ _ => by
    rw [sourceEntries]
    · exact .failure
    all_goals nofun

theorem gives_sourcesEntries (nameless : Option Bytes) (aliased : Bool) {done : SettingEntries}
    (h : Distinct (.group done)) : ∀ nodes : List Yaml.Node,
      Gives (sourcesEntries nameless aliased done nodes) fun es => Distinct (.group es)
  | [] => by
    rw [sourcesEntries]
    exact .pure h
  | n :: rest => by
    rw [sourcesEntries]
    exact .bind (gives_sourceEntries nameless aliased false h n) fun _ hdone =>
      gives_sourcesEntries nameless aliased hdone rest

end

end Decode

namespace SettingTree

theorem distinct_ofRoot? {root : Yaml.Node} (h : ofRoot? root = some t) : t.Distinct := by
  unfold ofRoot? at h
  split at h
  next entries =>
    obtain ⟨r, hr, rfl⟩ := Option.map_eq_some_iff.1 h
    exact Decode.gives_tree true false (.map entries) _ r hr
  · split at h
    · cases h
      exact .empty
    · cases h

end SettingTree

/-! ### Rules -/

/-- What is relied on of the rules by which settings are read. -/
structure SettingRules.Lawful (rules : SettingRules) : Prop where
  /-- No map in a document has two entries of one name. -/
  distinct_document : ∀ text t, rules.document? text = some t → t.Distinct
  distinct_nested : ∀ values, (rules.nested values).Distinct
  /-- As long as no path leads on from another one, values are where they were set, and a later one
      takes the place of an earlier one. -/
  about_nested : ∀ values q v, (∀ e ∈ values, e.1 ≠ []) → SettingTree.Unambiguous values →
    ((rules.nested values).about q = .tree (.value v) ↔ values.reverse.lookup q = some v)
  /-- If something stands at a path, it is what is found there, and it is no map. -/
  find_about : ∀ t path t' v, SettingTree.about t path = .tree t' → rules.find? t path = some v →
    t' = .value v

theorem SettingRules.lawful_usual : SettingRules.usual.Lawful where
  distinct_document text t h := by
    obtain ⟨root, -, hroot⟩ := Option.bind_eq_some_iff.1 h
    exact SettingTree.distinct_ofRoot? hroot
  distinct_nested := SettingTree.distinct_ofPaths
  about_nested values q v hpaths hclear := SettingTree.about_ofPaths hpaths hclear
  find_about t path t' v := SettingTree.found?_of_about

/-! ### Flags and variables -/

/-- The values that flags give, with their paths, latest first. -/
def flagValues (given : List (String × FlagValue)) : List (List Bytes × SettingValue) :=
  given.filterMap fun (name, v) =>
    if SettingTree.otherFlags.contains name then none
    else some (SettingKey.path (SettingKey.ofFlag (bytes name)), SettingTree.ofFlagValue v)

/-- The texts that variables give, with their paths, in the order of the variables. -/
def variableTexts (environment : List (Bytes × Bytes)) : List (List Bytes × Bytes) :=
  environment.filterMap fun (name, text) =>
    if !name.beginsWith SettingKey.variableStart then none
    else
      match SettingKey.ofVariable name with
      | [] => none
      | key => some (SettingKey.path key, text)

/-- The flags of a command line: they set settings, or nothing. -/
def KnownFlags (given : List (String × FlagValue)) : Prop :=
  ∀ g ∈ given, SettingTree.otherFlags.contains g.1 = true ∨ g.1 ∈ settingFlags.map Flag.name

namespace SettingTree

theorem ofFlags_eq (rules : SettingRules) (given : List (String × FlagValue)) :
    ofFlags rules given = rules.nested (flagValues given).reverse := by
  rw [ofFlags, flagValues, List.filterMap_reverse]

theorem ofVariables_eq (rules : SettingRules) (environment : List (Bytes × Bytes)) :
    ofVariables rules environment =
      rules.nested ((variableTexts environment).map fun e => (e.1, .text e.2)) := by
  rw [ofVariables, variableTexts, List.map_filterMap]
  congr 1
  refine List.filterMap_congr fun e _ => ?_
  obtain ⟨name, text⟩ := e
  dsimp only
  split
  · rfl
  · cases SettingKey.ofVariable name <;> rfl

end SettingTree

end KustoFacts
