import KustoFacts.Proofs.Facts.Shown
import KustoFacts.Proofs.Query.ParsedGrown

/-!
    Joins that are found. The kind of a join is the text of an option, which is never empty, put
    into small letters or exchanged for a name of the vocabulary; a join or lookup has exactly one
    target, if only the placeholder. So no kind is empty, and a kind without targets is that of
    unions none of which has an operand with a name. -/

namespace KustoFacts

/-! ### Kinds -/

theorem Utf8.encode_ne_nil (code : Nat) : encode code ≠ [] := by
  unfold encode
  split
  · nofun
  · split
    · nofun
    · split <;> nofun

/-- Small letters leave no text without letters. -/
theorem lowercase_ne_nil {text : Bytes} (h : text ≠ []) : lowercase text ≠ [] := by
  obtain ⟨b, rest, rfl⟩ := List.exists_cons_of_ne_nil h
  rw [lowercase, Utf8.glyphs, Utf8.glyphsAfter, List.flatMap_cons]
  refine List.append_ne_nil_of_left_ne_nil ?_ _
  split <;> exact Utf8.encode_ne_nil _

namespace JoinKind

theorem known?_ne_nil {text kind : Bytes} (h : known? text = some kind) : kind ≠ [] := by
  have hnamed : ∀ entry ∈ vocabulary, entry.2 ≠ [] := by decide
  obtain ⟨before, after, hvocabulary, -⟩ := List.lookup_eq_some_iff.1 h
  exact hnamed (_, kind) (hvocabulary ▸ List.mem_append_right _ List.mem_cons_self)

theorem normalize_ne_nil {text : Bytes} (h : text ≠ []) : normalize text ≠ [] := by
  rw [normalize]
  cases hknown : known? text with
  | none => exact lowercase_ne_nil h
  | some kind => exact known?_ne_nil hknown

end JoinKind

namespace Node

variable {text : Bytes} {read : Tokens} {k : Nat} {normalize : Bool} {n : Node}
  {kind : Option Bytes}

theorem joinLabel_ne_nil (h : kind ≠ some []) : joinLabel normalize kind ≠ [] := by
  rcases kind with _ | text
  · rw [joinLabel]
    decide
  have htext : text ≠ [] := fun hnil => h (congrArg some hnil)
  rw [joinLabel]
  split
  · exact JoinKind.normalize_ne_nil htext
  · exact htext

/-- The kind of a join is never empty text. -/
theorem Grown.kind_ne_nil (h : n.Grown text read k) (hform : n.form = .join kind) :
    kind ≠ some [] := by
  have hspelled := h.spelled
  rwa [hform] at hspelled

/-! ### Targets -/

/-- A join has one target. -/
theorem joinTargets_eq (right : Option Node) : ∃ name, name ≠ [] ∧ joinTargets right = [name] := by
  unfold joinTargets
  dsimp only
  split
  next b bs _ => exact ⟨b :: bs, List.cons_ne_nil b bs, rfl⟩
  next => exact ⟨unnamedTarget, by decide, rfl⟩

/-- What a join finds has a kind and, unless it is a union, a target. -/
theorem Shows.join_cases (h : n.Grown text read k) {label : Bytes} {targets : List Bytes}
    (hshows : n.Shows normalize (.join label targets)) :
    label ≠ [] ∧ ((∃ name, name ≠ [] ∧ name ∈ targets) ∨
      label = JoinKind.union ∧ n.form = .union ∧ n.role ≠ .operator) := by
  cases hshows with
  | join role form =>
    obtain ⟨name, hname, htargets⟩ := joinTargets_eq (n.child? .right)
    exact ⟨joinLabel_ne_nil (h.kind_ne_nil form), .inl ⟨name, hname, htargets ▸ List.mem_cons_self⟩⟩
  | lookup role form =>
    obtain ⟨name, hname, htargets⟩ := joinTargets_eq (n.child? .right)
    exact ⟨by decide, .inl ⟨name, hname, htargets ▸ List.mem_cons_self⟩⟩
  | union role form => exact ⟨by decide, .inr ⟨rfl, form, role⟩⟩

end Node

/-- No fact about a text is a blank. None of the sets has the empty name, every kind of join has a
    name, and only unions can be without targets; if they are, a union stands in the text that is
    not applied to anything by a pipe. -/
theorem facts_without_blanks (options : ExtractOptions) (id text : Bytes) (facts : Facts)
    (h : (extract options id text).outcome = .ok facts) :
    [] ∉ facts.functionCalls.items ∧ [] ∉ facts.operators.items ∧ [] ∉ facts.tables.items ∧
      ∃ p, parse options.catalog text = .ok p ∧
        ∀ kind set, facts.joins.get? kind = some set →
          kind ≠ [] ∧ [] ∉ set.items ∧
            (set.items = [] → kind = JoinKind.union ∧
              ∃ n ∈ p.root.preorder, n.form = .union ∧ n.role ≠ .operator) := by
  refine ⟨facts.functionCalls.named, facts.operators.named, facts.tables.named, ?_⟩
  obtain ⟨p, hparse, -, rfl⟩ := parse_of_outcome h
  refine ⟨p, hparse, fun kind set hset => ?_⟩
  obtain ⟨read, hread, hgrown⟩ := grown_parse hparse
  obtain ⟨⟨targets, hfound⟩, hmem⟩ := Facts.get?_joins_ofFindings hset
  obtain ⟨n, hnode, hshows, -⟩ := exists_shows_parse hparse hfound
  obtain ⟨hkind, htargets⟩ := hshows.join_cases (hgrown.preorder n hnode)
  refine ⟨hkind, set.named, fun hempty => ?_⟩
  rcases htargets with ⟨name, hname, htarget⟩ | ⟨hunion, hform, hrole⟩
  · -- a join or lookup has put its target into the set
    have hitem : name ∈ set.items := (hmem name).2 ⟨hname, targets, hfound, htarget⟩
    rw [hempty] at hitem
    cases hitem
  · exact ⟨hunion, n, hnode, hform, hrole⟩

/-- A union without a named operand, around a join of a kind that has another name. -/
theorem facts_without_blanks_union :
    ∃ facts set, (extract ⟨.empty, true⟩ (bytes "q")
        (bytes "union (T|join kind=Anti U on k)")).outcome = .ok facts ∧
      facts.joins.get? JoinKind.union = some set ∧ set.items = [] ∧
      ∃ p, parse .empty (bytes "union (T|join kind=Anti U on k)") = .ok p ∧
        ∃ n ∈ p.root.preorder, n.form = .union ∧ n.role ≠ .operator := by
  have hview : (extract ⟨.empty, true⟩ (bytes "q")
      (bytes "union (T|join kind=Anti U on k)")).outcome.toOption.map
        (fun facts => (facts.joins.get? JoinKind.union).map NameSet.items) = some (some []) := by
    rw [toOption_outcome]
    decide +kernel
  obtain ⟨facts, houtcome, hview⟩ := ok_of_map hview
  obtain ⟨set, hset, hempty⟩ := Option.map_eq_some_iff.1 hview
  obtain ⟨-, -, -, p, hparse, hjoins⟩ := facts_without_blanks _ _ _ facts houtcome
  obtain ⟨-, -, hunion⟩ := hjoins _ set hset
  exact ⟨facts, set, houtcome, hset, hempty, p, hparse, (hunion hempty).2⟩

end KustoFacts
