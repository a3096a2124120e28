import KustoFacts.Proofs.Facts.Outcome
import KustoFacts.Proofs.Facts.Parts
import KustoFacts.Proofs.Text.Lowercase

/-!
    Kinds of join brought to their names in the vocabulary. Putting the kinds of a text in order
    changes nothing but the labels of its joins, and it can as well be done afterwards: each label
    of what is found is put in order, and labels that become one have their targets together. A
    kind that is in order stays as it is. -/

namespace KustoFacts

/-! ### Names of kinds -/

namespace JoinKind

/-- The kinds' own names are in order. -/
theorem normalize_vocabulary : ∀ entry ∈ vocabulary, normalize entry.2 = entry.2 := by
  decide +kernel

theorem normalize_usual : normalize usual = usual := by decide +kernel

theorem normalize_lookup : normalize lookup = lookup := by decide +kernel

/-- A union has a label outside of the vocabulary, which is in small letters. -/
theorem normalize_union : normalize union = union := by decide +kernel

theorem known?_lowercase (kind : Bytes) : known? (lowercase kind) = known? kind := by
  rw [known?, known?, lowercase_lowercase]

theorem normalize_of_known? {kind name : Bytes} (h : known? kind = some name) :
    normalize kind = name ∧ normalize name = name := by
  obtain ⟨before, after, hvocabulary, -⟩ := List.lookup_eq_some_iff.1 h
  refine ⟨by rw [normalize, h]; rfl, ?_⟩
  have hentry : (lowercase kind, name) ∈ vocabulary := by rw [hvocabulary]; simp
  exact normalize_vocabulary _ hentry

theorem normalize_of_none {kind : Bytes} (h : known? kind = none) :
    normalize kind = lowercase kind := by
  rw [normalize, h]
  rfl

/-- A kind is put in order once. -/
theorem normalize_normalize (kind : Bytes) : normalize (normalize kind) = normalize kind := by
  cases hknown : known? kind with
  | some name =>
    obtain ⟨hkind, hname⟩ := normalize_of_known? hknown
    rw [hkind, hname]
  | none =>
    rw [normalize_of_none hknown, normalize_of_none (by rw [known?_lowercase, hknown]),
      lowercase_lowercase]

end JoinKind

/-! ### Joins under other labels -/

namespace Joins

/-- The second joins are the first under other labels: they have the new labels of the first, and
    for each of them the targets of all that have come to it. -/
structure Relabels (rename : Bytes → Bytes) (before after : Joins) : Prop where
  kinds : ∀ kind, (after.get? kind).isSome ↔
    ∃ old, (before.get? old).isSome ∧ rename old = kind
  targets : ∀ kind set, after.get? kind = some set → ∀ name, name ∈ set.items ↔
    ∃ old oldSet, before.get? old = some oldSet ∧ rename old = kind ∧ name ∈ oldSet.items

theorem isSome_get?_ofList {kind : Bytes} {joined : List (Bytes × List Bytes)} :
    ((ofList joined).get? kind).isSome ↔ ∃ targets, (kind, targets) ∈ joined := by
  rw [get?_ofList]
  split
  next h => simpa using h
  next h => simpa using h

/-- What was joined, under other labels. -/
def relabelled (rename : Bytes → Bytes) (joined : List (Bytes × List Bytes)) :
    List (Bytes × List Bytes) :=
  joined.map fun (kind, targets) => (rename kind, targets)

theorem relabels_ofList (rename : Bytes → Bytes) (joined : List (Bytes × List Bytes)) :
    Relabels rename (ofList joined) (ofList (relabelled rename joined)) where
  kinds kind := by
    simp only [isSome_get?_ofList, relabelled, List.mem_map, Prod.mk.injEq, Prod.exists]
    constructor
    · rintro ⟨targets, old, targets', hmem, hkind, rfl⟩
      exact ⟨old, ⟨targets', hmem⟩, hkind⟩
    · rintro ⟨old, ⟨targets, hmem⟩, hkind⟩
      exact ⟨targets, old, targets, hmem, hkind, rfl⟩
  targets kind set hset name := by
    rw [(get?_ofList_eq_some hset).2]
    constructor
    · rintro ⟨hname, targets, hmem, htarget⟩
      obtain ⟨⟨old, targets'⟩, hold, heq⟩ := List.mem_map.1 hmem
      obtain ⟨rfl, rfl⟩ := Prod.mk.inj heq
      obtain ⟨oldSet, holdSet⟩ := Option.isSome_iff_exists.1 (isSome_get?_ofList.2 ⟨_, hold⟩)
      exact ⟨old, oldSet, holdSet, rfl,
        ((get?_ofList_eq_some holdSet).2 name).2 ⟨hname, _, hold, htarget⟩⟩
    · rintro ⟨old, oldSet, holdSet, rfl, hmem⟩
      obtain ⟨hname, targets, hold, htarget⟩ := ((get?_ofList_eq_some holdSet).2 name).1 hmem
      exact ⟨hname, targets, List.mem_map.2 ⟨_, hold, rfl⟩, htarget⟩

end Joins

/-! ### Findings under other labels -/

/-- A finding whose join, if it is one, has another label. -/
def Finding.relabel (rename : Bytes → Bytes) : Finding → Finding
  | .join kind targets => .join (rename kind) targets
  | f => f

/-- Findings under other labels give the same facts but for the labels of joins. -/
theorem Facts.ofFindings_relabel (rename : Bytes → Bytes) (id : Bytes) (found : List Finding) :
    ∃ joins, ofFindings id (found.map (Finding.relabel rename)) =
        { ofFindings id found with joins := joins } ∧
      (ofFindings id found).joins.Relabels rename joins := by
  have hsame (sort : Finding → Option Bytes) (h : ∀ f, sort (f.relabel rename) = sort f) :
      (found.map (Finding.relabel rename)).filterMap sort = found.filterMap sort := by
    rw [List.filterMap_map]
    exact congrArg (List.filterMap · found) (funext h)
  have hjoins : (found.map (Finding.relabel rename)).filterMap Finding.join? =
      Joins.relabelled rename (found.filterMap Finding.join?) := by
    rw [Joins.relabelled, List.filterMap_map, List.map_filterMap]
    refine congrArg (List.filterMap · found) (funext ?_)
    rintro (_ | _ | _ | _) <;> rfl
  simp only [ofFindings_eq, hjoins, hsame Finding.call? (by rintro (_ | _ | _ | _) <;> rfl),
    hsame Finding.table? (by rintro (_ | _ | _ | _) <;> rfl),
    hsame Finding.operator? (by rintro (_ | _ | _ | _) <;> rfl)]
  exact ⟨_, rfl, Joins.relabels_ofList rename _⟩

namespace Node

/-- Whether kinds are put in order counts for joins that name their kind; the label of every other
    join is in order. -/
theorem shows_true (n : Node) :
    n.shows true = (n.shows false).map (Finding.relabel JoinKind.normalize) := by
  have hlabel (kind : Option Bytes) :
      joinLabel true kind = JoinKind.normalize (joinLabel false kind) := by
    cases kind with
    | none => exact JoinKind.normalize_usual.symm
    | some text => rfl
  unfold shows finding operatorFinding
  cases n.form with
  | functionCall name => rfl
  | nameReference name symbol => cases symbol <;> rfl
  | join kind =>
    dsimp only
    split_ifs
    · rw [hlabel]
      rfl
    · rfl
  | lookup kind =>
    dsimp only
    split_ifs
    · exact congrArg (fun label => some (Finding.join label _)) JoinKind.normalize_lookup.symm
    · rfl
  | union =>
    dsimp only
    split_ifs
    · rfl
    · exact congrArg (fun label => some (Finding.join label _)) JoinKind.normalize_union.symm
  | stub kind fault =>
    by_cases hrole : n.role = .operator
    · simp only [if_pos hrole]
      cases kind <;> rfl
    · simp only [if_neg hrole]
      cases kind <;> rfl
  | _ =>
    dsimp only
    split_ifs <;> rfl

theorem findings_true (n : Node) :
    n.findings true = (n.findings false).map (Finding.relabel JoinKind.normalize) := by
  rw [findings, findings, List.map_filterMap]
  exact List.filterMap_congr fun m _ => shows_true m

end Node

/-! ### Extractions -/

/-- Putting kinds of join in order commutes with extraction. It ends in the same way with the same
    error; and if it yields facts, these are the same but for the labels of joins, which are those
    of the other extraction put in order, with the targets of all labels that have become one. A
    label is put in order once. -/
theorem extract_relabels (calledOff : Option CallOff) (catalog : TableNames) (id text : Bytes) :
    ((∃ error, (extractUnless calledOff ⟨catalog, false⟩ id text).outcome = .error error ∧
        (extractUnless calledOff ⟨catalog, true⟩ id text).outcome = .error error) ∨
      ∃ facts joins, (extractUnless calledOff ⟨catalog, false⟩ id text).outcome = .ok facts ∧
        (extractUnless calledOff ⟨catalog, true⟩ id text).outcome =
          .ok { facts with joins := joins } ∧
        facts.joins.Relabels JoinKind.normalize joins) ∧
    ∀ kind, JoinKind.normalize (JoinKind.normalize kind) = JoinKind.normalize kind := by
  refine ⟨?_, JoinKind.normalize_normalize⟩
  cases calledOff with
  | some why => exact .inl ⟨_, rfl, rfl⟩
  | none =>
    simp only [extractUnless]
    cases hparse : parse catalog text with
    | error o =>
      simp only [extract, hparse]
      exact .inl ⟨_, rfl, rfl⟩
    | ok p =>
      by_cases hclean : p.diagnostics = []
      · obtain ⟨joins, hjoins, hrelabels⟩ := Facts.ofFindings_relabel JoinKind.normalize id
          ((p.root.inSlot .none).findings false)
        have hnormal : (extract ⟨catalog, true⟩ id text).outcome =
            .ok (.ofFindings id ((p.root.inSlot .none).findings true)) :=
          outcome_parsed hparse hclean
        refine .inr ⟨_, joins, outcome_parsed hparse hclean, ?_, hrelabels⟩
        rw [hnormal, ← hjoins, Node.findings_true]
      · exact .inl ⟨_, outcome_refused hparse hclean, outcome_refused hparse hclean⟩

end KustoFacts
