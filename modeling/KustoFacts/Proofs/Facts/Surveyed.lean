import KustoFacts.Proofs.Facts.Findings

/-!
    How a survey ends. It fails with the first node whose children cannot be read; if there is none,
    with the first malformed node; and else its facts are those that each node contributes by
    itself, all taken together. Nodes are in the order of a visit and trees may mix nodes of the
    parser with stubs; in a well-formed tree there are none, and no survey of it fails. -/

namespace KustoFacts

namespace Node

variable {n : Node} {normalize : Bool}

/-! ### Malformed nodes -/

/-- A stub that stands where the parts of its kind are needed: calls and references anywhere, joins
    and lookups as operators, unions elsewhere. -/
def Malformed (n : Node) : Prop :=
  (∃ kind fault, n.form = .stub kind fault) ∧
    (n.kind = .functionCall ∨ n.kind = .nameReference ∨
      n.role = .operator ∧ (n.kind = .joinOperator ∨ n.kind = .lookupOperator) ∨
      n.role ≠ .operator ∧ n.kind = .unionOperator)

theorem finding_of_not_malformed (h : ¬n.Malformed) :
    n.finding normalize = .ok (n.shows normalize) := by
  have hfound : ∃ found, n.finding normalize = .ok found := by
    rcases n with ⟨role, form, span, first, children⟩
    by_cases hrole : role = .operator
    · subst hrole
      cases form with
      | stub kind fault =>
        cases kind with
        | functionCall => exact absurd ⟨⟨_, _, rfl⟩, .inl rfl⟩ h
        | nameReference => exact absurd ⟨⟨_, _, rfl⟩, .inr (.inl rfl)⟩ h
        | joinOperator => exact absurd ⟨⟨_, _, rfl⟩, .inr (.inr (.inl ⟨rfl, .inl rfl⟩))⟩ h
        | lookupOperator => exact absurd ⟨⟨_, _, rfl⟩, .inr (.inr (.inl ⟨rfl, .inr rfl⟩))⟩ h
        | _ => exact ⟨_, rfl⟩
      | _ => exact ⟨_, rfl⟩
    · cases form with
      | stub kind fault =>
        cases kind with
        | functionCall => exact absurd ⟨⟨_, _, rfl⟩, .inl rfl⟩ h
        | nameReference => exact absurd ⟨⟨_, _, rfl⟩, .inr (.inl rfl)⟩ h
        | unionOperator => exact absurd ⟨⟨_, _, rfl⟩, .inr (.inr (.inr ⟨hrole, rfl⟩))⟩ h
        | _ => exact ⟨_, if_neg hrole⟩
      | functionCall name => exact ⟨_, rfl⟩
      | nameReference name symbol => exact ⟨_, rfl⟩
      | _ => exact ⟨_, if_neg hrole⟩
  obtain ⟨found, hfound⟩ := hfound
  rw [shows, hfound]

theorem WellFormed.not_malformed {text : Bytes} (h : n.WellFormed text) : ¬n.Malformed := by
  rintro ⟨⟨kind, fault, hform⟩, -⟩
  have hadmits := h.admits
  rw [hform] at hadmits
  exact hadmits.elim

/-! ### Visits -/

theorem upToFault_of_none {nodes : List Node} (h : ∀ n ∈ nodes, n.fault? = none) :
    upToFault nodes = nodes := by
  induction nodes with
  | nil => rfl
  | cons n nodes ih =>
    obtain ⟨hn, hnodes⟩ := List.forall_mem_cons.1 h
    rw [upToFault, hn, Option.isSome_none, if_neg Bool.false_ne_true, ih hnodes]

end Node

namespace Facts

end Facts

/-! ### Surveys -/

open Node

variable {normalize : Bool} {id : Bytes} {nodes : List Node} {root : Node}

/-- Nodes that are not malformed add what they show. -/
theorem foldl_surveyStep {f : Facts} (h : ∀ n ∈ nodes, ¬n.Malformed) :
    nodes.foldl (surveyStep normalize) (.ok f) =
      .ok ((nodes.filterMap (shows normalize)).foldl Facts.add f) := by
  induction nodes generalizing f with
  | nil => rfl
  | cons n nodes ih =>
    obtain ⟨hn, hnodes⟩ := List.forall_mem_cons.1 h
    have hstep : surveyStep normalize (.ok f) n =
        .ok ((n.shows normalize).toList.foldl Facts.add f) := by
      simp only [surveyStep, finding_of_not_malformed hn]
      cases n.shows normalize <;> rfl
    rw [List.foldl_cons, hstep, ih hnodes, List.filterMap_cons]
    cases n.shows normalize <;> rfl

/-- A survey that can read everything goes through all nodes. -/
theorem survey_of_readable (h : ∀ n ∈ (root.inSlot .none).preorder, n.fault? = none) :
    survey normalize id root = surveyNodes normalize id (root.inSlot .none).preorder := by
  have hvisited : root.visited = (root.inSlot .none).preorder := upToFault_of_none h
  simp only [survey, hvisited, List.findSome?_eq_none_iff.2 h]

/-- The survey of a well-formed tree gives the facts of all that it shows. -/
theorem survey_wellFormed {text : Bytes} (h : root.WellFormed text) (normalize : Bool)
    (id : Bytes) : survey normalize id root =
      .ok (.ofFindings id ((root.inSlot .none).findings normalize)) := by
  have hnodes := (h.inSlot .none).preorder
  rw [survey_of_readable fun n hn => (hnodes n hn).fault?, surveyNodes,
    foldl_surveyStep fun n hn => (hnodes n hn).not_malformed]
  rfl

end KustoFacts
