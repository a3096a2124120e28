import KustoFacts.Facts.Document
import KustoFacts.Proofs.Facts.Union
import KustoFacts.Proofs.Json.Values

/-!
    Facts and their documents. Facts are told by their members alone, so that the order in which
    findings are added leaves no trace; and facts are read back from the value that is written for
    them, kind by kind and name by name. -/

namespace KustoFacts

/-! ### Members -/

namespace Facts

/-- Facts of one id with the same names in each set, and with the same targets for each kind that
    one of them has. -/
structure SameMembers (f g : Facts) : Prop where
  id : f.id = g.id
  functionCalls : f.functionCalls.has = g.functionCalls.has
  joins : ∀ kind, (f.joins.get? kind).map NameSet.has = (g.joins.get? kind).map NameSet.has
  operators : f.operators.has = g.operators.has
  tables : f.tables.has = g.tables.has

end Facts

theorem NameSet.has_injective : Function.Injective NameSet.has := by
  intro s t h
  refine NameSet.ext_items fun x => ?_
  have hx := congrFun h x
  simpa [NameSet.has] using hx

/-- Facts with the same members are equal. -/
theorem Facts.SameMembers.eq {f g : Facts} (h : f.SameMembers g) : f = g := by
  have hjoins : f.joins = g.joins :=
    Joins.ext_get? fun kind => Option.map_injective NameSet.has_injective (h.joins kind)
  have hcalls := NameSet.has_injective h.functionCalls
  have hoperators := NameSet.has_injective h.operators
  have htables := NameSet.has_injective h.tables
  have hid := h.id
  cases f
  cases g
  simp_all

/-! ### Reading documents -/

namespace FactsDocument

theorem names?_strings (names : List Bytes) : names? (.array (names.map .string)) = some names := by
  rw [names?]
  induction names with
  | nil => rfl
  | cons name names ih =>
    rw [List.map_cons, List.mapM_cons, ih]
    rfl

theorem set?_setJson (s : NameSet) : set? (Facts.setJson s) = some s := by
  rw [set?, Facts.setJson, names?_strings, Option.map_some, NameSet.ofList_items]

/-- An entry for a new kind is added. -/
theorem setEntry_new {j : Joins} {kind : Bytes} (h : kind ∉ j.entries.map (·.1))
    (targets : NameSet) : setEntry j kind targets = j.add kind targets.items := by
  have hfilter : j.entries.filter (·.1 ≠ kind) = j.entries := by
    refine List.filter_eq_self.2 fun entry hentry => ?_
    have hne : entry.1 ≠ kind := fun hkind => h (hkind ▸ List.mem_map_of_mem hentry)
    simpa using hne
  rw [setEntry, hfilter, Joins.addAll_entries]

theorem foldlM_setEntry (entries : JoinEntries) (j : Joins) (hnodup : (entries.map (·.1)).Nodup)
    (hnew : ∀ kind ∈ entries.map (·.1), kind ∉ j.entries.map (·.1)) :
    (entries.map fun (kind, set) => (kind, Facts.setJson set)).foldlM
      (fun j (kind, v) => (set? v).map (setEntry j kind)) j = some (j.addAll entries) := by
  induction entries generalizing j with
  | nil => rfl
  | cons entry entries ih =>
    obtain ⟨kind, set⟩ := entry
    rw [List.map_cons, List.nodup_cons] at hnodup
    rw [List.map_cons, List.forall_mem_cons] at hnew
    rw [List.map_cons, List.foldlM_cons]
    dsimp only
    rw [set?_setJson, Option.map_some, setEntry_new hnew.1]
    refine ih _ hnodup.2 fun k hk => ?_
    rw [Joins.add, JoinEntries.map_fst_merge, mem_insertAscending, not_or]
    exact ⟨fun hkind => hnodup.1 (hkind ▸ hk), hnew.2 k hk⟩

/-- Joins are read back, if there were none before. -/
theorem readJoins_joinsJson (d : FactsDocument) (joins : Joins) (h : d.facts.joins = .empty) :
    d.readJoins (Facts.joinsJson joins) = some ⟨{ d.facts with joins := joins }, false⟩ := by
  have hnodup : (joins.entries.map (·.1)).Nodup := joins.ascending.imp
    fun {a b} (hlt : a < b) (heq : a = b) => List.lt_irrefl b (heq ▸ hlt)
  have hread := foldlM_setEntry joins.entries .empty hnodup fun _ _ => List.not_mem_nil
  rw [Joins.addAll_entries] at hread
  rw [Facts.joinsJson, readJoins, h, hread]
  rfl

theorem json_document (f : Facts) : f.document.json = f.json := by
  simp [json, Facts.document, Facts.json]

/-- Facts are read back from the value that is written for them. -/
theorem ofJson?_json (f : Facts) : ofJson? f.json = some f.document := by
  have hid : foldName (bytes "id") = bytes "id" := by decide +kernel
  have hcalls : foldName (bytes "functionCalls") = bytes "functioncalls" := by decide +kernel
  have hjoins : foldName (bytes "joins") = bytes "joins" := by decide +kernel
  have hoperators : foldName (bytes "operators") = bytes "operators" := by decide +kernel
  have htables : foldName (bytes "tables") = bytes "tables" := by decide +kernel
  have hdistinct : [bytes "tables", bytes "operators", bytes "joins", bytes "functioncalls",
      bytes "id"].Nodup := by decide +kernel
  simp only [List.nodup_cons, List.mem_cons, List.not_mem_nil, or_false, not_or] at hdistinct
  rw [Facts.json, ofJson?]
  simp only [List.foldlM_cons, List.foldlM_nil, readMember, hid, hcalls, hjoins, hoperators,
    htables, hdistinct, if_true, if_false, set?_setJson, Option.map_some, Option.bind_eq_bind,
    Option.bind_some]
  rw [readJoins_joinsJson _ _ rfl]
  rfl

end FactsDocument

/-! ### Facts whose strings are UTF-8 -/

/-- The names in a set are UTF-8. -/
def NameSet.IsText (s : NameSet) : Prop := ∀ name ∈ s.items, Utf8.isValid name = true

instance (s : NameSet) : Decidable s.IsText := by unfold NameSet.IsText; infer_instance

namespace Facts

/-- All strings in facts are UTF-8. -/
structure IsText (f : Facts) : Prop where
  id : Utf8.isValid f.id = true
  functionCalls : f.functionCalls.IsText
  kinds : ∀ entry ∈ f.joins.entries, Utf8.isValid entry.1 = true
  targets : ∀ entry ∈ f.joins.entries, entry.2.IsText
  operators : f.operators.IsText
  tables : f.tables.IsText

theorem textual_setJson {s : NameSet} (h : s.IsText) : (setJson s).Textual :=
  .array (List.forall_mem_map.2 fun name hname => .string (h name hname))

theorem IsText.textual {f : Facts} (h : f.IsText) : f.json.Textual := by
  have hjoins : (joinsJson f.joins).Textual :=
    .object (List.forall_mem_map.2 h.kinds)
      (List.forall_mem_map.2 fun entry hentry => textual_setJson (h.targets entry hentry))
  refine .object ?_ ?_
  · simp only [List.forall_mem_cons]
    decide +kernel
  · simp only [List.forall_mem_cons]
    exact ⟨.string h.id, textual_setJson h.functionCalls, hjoins, textual_setJson h.operators,
      textual_setJson h.tables, List.forall_mem_nil _⟩

end Facts
end KustoFacts
