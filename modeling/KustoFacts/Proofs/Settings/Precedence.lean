import KustoFacts.Proofs.Settings.Names
import KustoFacts.Proofs.Settings.Sources
import KustoFacts.Proofs.Text.Cutting

/-!
    Which source a setting comes from. The settings are decoded from four trees laid over each other,
    so the highest of them that says anything about a setting decides it (`SettingName.decided`). It
    may have a value for the setting, or close it, by a value where the section of the setting should
    be; then nothing below is seen. What flags and variables say is read off their names: each is an
    entry of a path (`about_ofFlags`, `about_ofVariables`). All this holds under any rules that keep
    the laws for reading documents and values at paths. -/

namespace KustoFacts

/-! ### The sources -/

/-- The trees of all sources, the highest first. -/
def Plan.sources (rules : SettingRules) (fileTree : SettingTree) (environment : List (Bytes × Bytes))
    (given : List (String × FlagValue)) : List SettingTree :=
  [.ofFlags rules given, .ofVariables rules environment, fileTree, .defaults rules]

namespace Plan

variable {rules : SettingRules} {file : Option SettingsFile} {fileTree : SettingTree}
  {environment : List (Bytes × Bytes)} {given : List (String × FlagValue)} {plan : Plan}

theorem settings_of_check {s : Settings} (h : s.check = .ok plan) : plan.settings = s := by
  unfold Settings.check at h
  split at h
  case h_2 => cases h
  simp only [bind, Except.bind, throw, throwThe, MonadExceptOf.throw, pure, Except.pure] at h
  split at h
  · cases h
  split at h
  · cases h
  split at h
  · cases h
  split at h
  case h_2 => cases h
  split at h
  case h_2 => cases h
  cases h
  rfl

/-- The tree of the file, if there is one. -/
def FileTree (rules : SettingRules) (file : Option SettingsFile) (t : SettingTree) : Prop :=
  match file with
  | none => t = .empty
  | some f => SettingTree.ofFile rules f = .ok t

/-- The plan of a tree has the settings of the tree. -/
theorem ofTree?_of_check {t : SettingTree}
    (h : (do
        let some settings := Settings.ofTree? rules t | throw .undecodable
        settings.check.mapError .invalid : Except SettingsError Plan) = .ok plan) :
    Settings.ofTree? rules t = some plan.settings := by
  split at h
  case h_2 => cases h
  next settings hsettings =>
    cases hcheck : settings.check with
    | error why =>
      rw [hcheck] at h
      cases h
    | ok checked =>
      rw [hcheck] at h
      cases h
      rw [hsettings, settings_of_check hcheck]

theorem load_of_file {f : SettingsFile} (hfile : SettingTree.ofFile rules f = .ok fileTree)
    (environment : List (Bytes × Bytes)) (given : List (String × FlagValue)) :
    loadWith rules (some f) environment given = (do
      let some settings :=
          Settings.ofTree? rules (.layered (sources rules fileTree environment given).reverse)
        | throw .undecodable
      settings.check.mapError .invalid) := by
  unfold loadWith
  dsimp only
  rw [hfile]
  rfl

/-- A plan is made from the tree of all sources. -/
theorem load_ok (h : loadWith rules file environment given = .ok plan) :
    ∃ fileTree, FileTree rules file fileTree ∧
      Settings.ofTree? rules (.layered (sources rules fileTree environment given).reverse) =
        some plan.settings := by
  cases file with
  | none => exact ⟨.empty, rfl, ofTree?_of_check h⟩
  | some f =>
    cases hfile : SettingTree.ofFile rules f with
    | error why =>
      unfold loadWith at h
      dsimp only at h
      rw [hfile] at h
      cases h
    | ok fileTree =>
      rw [load_of_file hfile] at h
      exact ⟨fileTree, hfile, ofTree?_of_check h⟩

/-- No section of a file has two entries of one name. -/
theorem FileTree.distinct (hrules : rules.Lawful) (h : FileTree rules file fileTree) :
    fileTree.Distinct := by
  cases file with
  | none =>
    rw [show fileTree = .empty from h]
    exact .empty
  | some f =>
    have hfile : SettingTree.ofFile rules f = .ok fileTree := h
    unfold SettingTree.ofFile at hfile
    split at hfile
    · cases hfile
    split at hfile
    case h_2 => cases hfile
    next hdocument =>
      cases hfile
      exact hrules.distinct_document _ _ hdocument

theorem distinct_of_mem (hrules : rules.Lawful) (h : FileTree rules file fileTree) :
    ∀ t ∈ sources rules fileTree environment given, t.Distinct := by
  simp only [sources, List.forall_mem_cons, List.not_mem_nil, false_implies, implies_true, and_true]
  exact ⟨hrules.distinct_nested _, hrules.distinct_nested _, h.distinct hrules,
    hrules.distinct_nested _⟩

/-- The defaults have every setting. -/
theorem about_defaults (hrules : rules.Lawful) (key : SettingName) :
    ∃ v, (SettingTree.defaults rules).about key.path = .tree (.value v) := by
  have hpaths : ∀ e ∈ SettingTree.defaultValues, e.1 ≠ [] := by decide
  have hclear : SettingTree.Unambiguous SettingTree.defaultValues := by
    unfold SettingTree.Unambiguous
    decide
  have habout (v : SettingValue) :=
    hrules.about_nested SettingTree.defaultValues key.path v hpaths hclear
  cases key <;> exact ⟨_, (habout _).2 rfl⟩

end Plan

/-! ### One setting -/

namespace SettingName

/-- A layer sets a setting: it has a value for it, which gives what settings have. -/
def SetBy (rules : SettingRules) (key : SettingName) (s : Settings) (layer : SettingTree) : Prop :=
  ∃ v, layer.about key.path = .tree (.value v) ∧ key.Holds rules s v

/-- A layer closes a setting: it has a value in place of the section, so that nothing is left for the
    setting where all layers are laid over each other, and it is what is found for one that is
    missing. -/
def ClosedBy (rules : SettingRules) (key : SettingName) (s : Settings) (whole layer : SettingTree) :
    Prop :=
  layer.about key.path = .closed ∧ (whole.about key.path).tree? = none ∧
    ∃ v, rules.find? whole key.path = some v ∧ key.Holds rules s v

variable {rules : SettingRules} {layers : List SettingTree} {s : Settings}

/-- A setting is set, or closed, by the highest layer that does either. -/
theorem decided (hrules : rules.Lawful) (hd : ∀ t ∈ layers, t.Distinct) (key : SettingName)
    (hsome : ∃ t ∈ layers, t.about key.path ≠ .nothing)
    (h : Settings.ofTree? rules (.layered layers.reverse) = some s) :
    ∃ above layer below, layers = above ++ layer :: below ∧
      (∀ t ∈ above, t.about key.path = .nothing) ∧
      (key.SetBy rules s layer ∨ key.ClosedBy rules s (.layered layers.reverse) layer) := by
  obtain ⟨v, hfound, hholds⟩ := key.holds_of_ofTree? h
  obtain ⟨above, layer, below, hlayers, habove, -, said, hstays, htree⟩ :=
    SettingTree.decided_highest hd hsome
  refine ⟨above, layer, below, hlayers, habove, ?_⟩
  have hvalue {t : SettingTree} (ht : said = .tree t) : t = .value v := by
    rw [ht] at htree
    exact hrules.find_about _ _ _ _ (SettingTree.tree?_eq_some.1 htree) hfound
  generalize hhighest : layer.about key.path = highest at hstays
  cases hstays with
  | closed => exact .inr ⟨hhighest, htree, v, hfound, hholds⟩
  | value w =>
    cases hvalue rfl
    exact .inl ⟨v, hhighest, hholds⟩
  | group entries entries' => cases hvalue rfl

end SettingName

/-! ### What flags say -/

section Flags

variable {rules : SettingRules} {given : List (String × FlagValue)} (h : KnownFlags given)
include h

theorem exists_of_mem_flagValues : ∀ e ∈ flagValues given, ∃ key : SettingName, e.1 = key.path := by
  intro e he
  obtain ⟨⟨name, v⟩, hgiven, he⟩ := List.mem_filterMap.1 he
  dsimp only at he
  split at he
  · cases he
  next hother =>
    cases he
    obtain ⟨key, -, hpath⟩ := SettingName.exists_of_flag ((h _ hgiven).resolve_left hother)
    exact ⟨key, hpath⟩

/-- A flag that is given more than once gives its last value. -/
theorem lookup_flagValues (key : SettingName) :
    (flagValues given).lookup key.path =
      (given.lookup key.flag).map SettingTree.ofFlagValue := by
  induction given with
  | nil => rfl
  | cons g rest ih =>
    obtain ⟨name, v⟩ := g
    obtain ⟨hname, hrest⟩ := List.forall_mem_cons.1 h
    rw [lookup_cons_ite, flagValues, List.filterMap_cons]
    dsimp only
    by_cases hother : SettingTree.otherFlags.contains name = true
    · have hne : key.flag ≠ name := by
        rintro rfl
        rw [key.not_other] at hother
        cases hother
      rw [if_pos hother, if_neg hne]
      exact ih hrest
    · obtain ⟨key', rfl, hpath⟩ := SettingName.exists_of_flag (hname.resolve_left hother)
      rw [if_neg hother, hpath]
      dsimp only
      rw [lookup_cons_ite]
      by_cases hkey : key = key'
      · rw [hkey, if_pos rfl, if_pos rfl]
        rfl
      · have hpaths : key.path ≠ key'.path := fun heq =>
          hkey (SettingName.path_prefix (heq ▸ List.prefix_refl key.path))
        have hflags : key.flag ≠ key'.flag := fun heq => hkey (SettingName.flag_injective heq)
        rw [if_neg hpaths, if_neg hflags]
        exact ih hrest

theorem unambiguous_flagValues : SettingTree.Unambiguous (flagValues given).reverse := by
  intro x hx y hy hxy
  obtain ⟨key, hkey⟩ := exists_of_mem_flagValues h x (List.mem_reverse.1 hx)
  obtain ⟨key', hkey'⟩ := exists_of_mem_flagValues h y (List.mem_reverse.1 hy)
  rw [hkey, hkey'] at hxy ⊢
  rw [SettingName.path_prefix hxy]

/-- Flags set what they are given for, to what they were given last. -/
theorem about_ofFlags (hrules : rules.Lawful) {q : List Bytes} {v : SettingValue} :
    (SettingTree.ofFlags rules given).about q = .tree (.value v) ↔
      (flagValues given).lookup q = some v := by
  have hpaths : ∀ e ∈ (flagValues given).reverse, e.1 ≠ [] := by
    intro e he
    obtain ⟨key, hkey⟩ := exists_of_mem_flagValues h e (List.mem_reverse.1 he)
    rw [hkey]
    exact List.append_ne_nil_of_right_ne_nil _ (List.cons_ne_nil _ _)
  rw [SettingTree.ofFlags_eq, hrules.about_nested _ _ _ hpaths (unambiguous_flagValues h),
    List.reverse_reverse]

/-- No flag is named like a section. -/
theorem ofFlags_ne_closed (hrules : rules.Lawful) (key : SettingName) :
    (SettingTree.ofFlags rules given).about key.path ≠ .closed := by
  intro hclosed
  obtain ⟨r, v, hr, hne, hvalue⟩ := SettingTree.exists_value_of_closed hclosed
  have hlookup := (about_ofFlags h hrules).1 hvalue
  obtain ⟨before, after, hvalues, -⟩ := List.lookup_eq_some_iff.1 hlookup
  obtain ⟨key', hkey'⟩ := exists_of_mem_flagValues h (r, v)
    (hvalues ▸ List.mem_append_right _ List.mem_cons_self)
  rw [show r = key'.path from hkey'] at hr hne
  exact hne (by rw [SettingName.path_prefix hr])

end Flags

/-! ### What variables say -/

section Variables

variable {rules : SettingRules} {environment : List (Bytes × Bytes)}

theorem ne_nil_of_mem_variableTexts : ∀ e ∈ variableTexts environment, e.1 ≠ [] := by
  intro e he
  obtain ⟨⟨name, text⟩, -, he⟩ := List.mem_filterMap.1 he
  dsimp only at he
  split at he
  · cases he
  split at he
  · cases he
  · cases he
    rw [SettingKey.path, Bytes.splitOn_eq]
    exact List.splitOn_ne_nil _ _

variable (h : SettingTree.Unambiguous (variableTexts environment))
include h

/-- Variables set what they are named for, to the text of the last one. -/
theorem about_ofVariables (hrules : rules.Lawful) {q : List Bytes} {v : SettingValue} :
    (SettingTree.ofVariables rules environment).about q = .tree (.value v) ↔
      ((variableTexts environment).reverse.lookup q).map .text = some v := by
  have hpaths : ∀ e ∈ (variableTexts environment).map fun e => (e.1, SettingValue.text e.2),
      e.1 ≠ [] :=
    List.forall_mem_map.2 ne_nil_of_mem_variableTexts
  have hclear : SettingTree.Unambiguous
      ((variableTexts environment).map fun e => (e.1, SettingValue.text e.2)) :=
    List.forall_mem_map.2 fun x hx => List.forall_mem_map.2 fun y hy => h x hx y hy
  rw [SettingTree.ofVariables_eq, hrules.about_nested _ _ _ hpaths hclear, ← List.map_reverse,
    lookup_map_snd]

/-- Variables close a section if one is named like it. -/
theorem ofVariables_closed (hrules : rules.Lawful) (key : SettingName) :
    (SettingTree.ofVariables rules environment).about key.path = .closed ↔
      ((variableTexts environment).reverse.lookup key.within).isSome := by
  constructor
  · intro hclosed
    obtain ⟨r, v, hr, hne, hvalue⟩ := SettingTree.exists_value_of_closed hclosed
    have hlookup := (about_ofVariables h hrules).1 hvalue
    rw [Option.map_eq_some_iff] at hlookup
    obtain ⟨text, htext, -⟩ := hlookup
    have hr' : r ≠ [] := by
      obtain ⟨before, after, htexts, -⟩ := List.lookup_eq_some_iff.1 htext
      exact ne_nil_of_mem_variableTexts (r, text)
        (List.mem_reverse.1 (htexts ▸ List.mem_append_right _ List.mem_cons_self))
    have hprefix : r <+: key.within := (List.prefix_concat_iff.1 hr).resolve_left hne
    have hwithin : r = key.within :=
      hprefix.eq_of_length_le (Nat.le_trans key.length_within (List.length_pos_iff.2 hr'))
    exact Option.isSome_iff_exists.2 ⟨text, hwithin ▸ htext⟩
  · intro hsome
    obtain ⟨text, htext⟩ := Option.isSome_iff_exists.1 hsome
    have habout := (about_ofVariables h hrules).2 (by rw [htext]; rfl)
    rw [SettingName.path, SettingTree.about_append habout]
    rfl

end Variables

/-! ### Precedence -/

/-- A file that says one thing. -/
def joinKindsFile : SettingsFile :=
  ⟨bytes "kql-extract.yaml", .ok (bytes "extract:\n  normalize_join_kinds: true\n")⟩

/-- Variables that name two settings. -/
def workersVariables : List (Bytes × Bytes) :=
  [(bytes "KQL_EXTRACT_WORKERS", bytes "3"), (bytes "KQL_EXTRACT_LOG_LEVEL", bytes "debug")]

/-- Flags for one of them, and for another setting. -/
def workersFlags : List (String × FlagValue) :=
  [("workers", .int 8), ("timeout", .duration ⟨5000000000⟩)]

/-- Where settings come from. A setting is set, or closed, by the highest source that does either,
    the flags, the variables, the file and the defaults, from the highest to the lowest; sources
    above it have nothing to do with the setting, and those below it do not matter. Flags set what
    they are given for and close nothing. Variables of which none is named like a section of another
    one set what they are named for, and close a section that one is named like. -/
theorem Plan.load_precedence {rules : SettingRules} (hrules : rules.Lawful)
    {file : Option SettingsFile} {environment : List (Bytes × Bytes)}
    {given : List (String × FlagValue)} {plan : Plan} (hflags : KnownFlags given)
    (h : Plan.loadWith rules file environment given = .ok plan) :
    ∃ fileTree, Plan.FileTree rules file fileTree ∧
      let sources : List SettingTree :=
        [.ofFlags rules given, .ofVariables rules environment, fileTree, .defaults rules]
      ∀ key : SettingName,
        (∃ above layer below, sources = above ++ layer :: below ∧
          (∀ t ∈ above, t.about key.path = .nothing) ∧
          (key.SetBy rules plan.settings layer ∨
            key.ClosedBy rules plan.settings (.layered sources.reverse) layer)) ∧
        (SettingTree.ofFlags rules given).about key.path ≠ .closed ∧
        (∀ v, (SettingTree.ofFlags rules given).about key.path = .tree (.value v) ↔
          (given.lookup key.flag).map SettingTree.ofFlagValue = some v) ∧
        (SettingTree.Unambiguous (variableTexts environment) →
          ((SettingTree.ofVariables rules environment).about key.path = .closed ↔
            ((variableTexts environment).reverse.lookup key.within).isSome) ∧
          ∀ v, (SettingTree.ofVariables rules environment).about key.path = .tree (.value v) ↔
            ((variableTexts environment).reverse.lookup key.path).map .text = some v) := by
  obtain ⟨fileTree, hfile, htree⟩ := Plan.load_ok h
  refine ⟨fileTree, hfile, ?_⟩
  intro sources key
  have hsome : ∃ t ∈ sources, t.about key.path ≠ .nothing := by
    obtain ⟨v, hv⟩ := Plan.about_defaults hrules key
    exact ⟨.defaults rules, by simp [sources], by rw [hv]; nofun⟩
  refine ⟨SettingName.decided hrules (Plan.distinct_of_mem hrules hfile) key hsome htree,
    ofFlags_ne_closed hflags hrules key, fun v => ?_, fun hclear => ?_⟩
  · rw [about_ofFlags hflags hrules, lookup_flagValues hflags]
  · exact ⟨ofVariables_closed hclear hrules key, fun v => about_ofVariables hclear hrules⟩

/-- Under the usual rules, with a file, two variables and two flags, of which one gives the number of
    workers that a variable gives as well. -/
theorem Plan.load_precedence_workers : ∃ plan,
    Plan.load (some joinKindsFile) workersVariables workersFlags = .ok plan ∧
    SettingRules.usual.Lawful ∧
    ∃ fileTree, Plan.FileTree .usual (some joinKindsFile) fileTree ∧
      let sources : List SettingTree := [.ofFlags .usual workersFlags,
        .ofVariables .usual workersVariables, fileTree, .defaults .usual]
      ∃ above layer below, sources = above ++ layer :: below ∧
        (∀ t ∈ above, t.about SettingName.workers.path = .nothing) ∧
        (SettingName.workers.SetBy .usual plan.settings layer ∨
          SettingName.workers.ClosedBy .usual plan.settings (.layered sources.reverse) layer) := by
  have hflags : KnownFlags workersFlags := by
    unfold KnownFlags
    decide
  have hloaded : (Plan.load (some joinKindsFile) workersVariables workersFlags).toOption.map
      (·.settings.workers) = some 8 := by decide +kernel
  cases hload : Plan.load (some joinKindsFile) workersVariables workersFlags with
  | error why =>
    rw [hload] at hloaded
    cases hloaded
  | ok plan =>
    obtain ⟨fileTree, hfile, hkeys⟩ :=
      Plan.load_precedence SettingRules.lawful_usual hflags hload
    exact ⟨plan, rfl, SettingRules.lawful_usual, fileTree, hfile, (hkeys .workers).1⟩

/-- Settings are not always set by the highest source that has them: a variable that is named like a
    section closes what the file has in it, and a flag opens the section again. -/
theorem Plan.load_section_lost : ¬∀ (file : Option SettingsFile) (environment : List (Bytes × Bytes))
    (given : List (String × FlagValue)) (plan : Plan) (fileTree : SettingTree), KnownFlags given →
    Plan.load file environment given = .ok plan → Plan.FileTree .usual file fileTree →
    ∀ (key : SettingName) (above : List SettingTree) (layer : SettingTree)
      (below : List SettingTree) (v : SettingValue),
      [.ofFlags .usual given, .ofVariables .usual environment, fileTree, .defaults .usual] =
        above ++ layer :: below →
      (∀ t ∈ above, ∀ w, t.about key.path ≠ .tree (.value w)) →
      layer.about key.path = .tree (.value v) → key.Holds .usual plan.settings v := by
  intro h
  let environment := [(bytes "KQL_EXTRACT_EXTRACT", bytes "x")]
  let given : List (String × FlagValue) := [("timeout", .duration ⟨5000000000⟩)]
  have hloaded : (Plan.load (some joinKindsFile) environment given).toOption.map
      (·.settings.normalizeJoinKinds) = some false := by decide +kernel
  have hsaid : (SettingTree.ofFile .usual joinKindsFile).toOption.map
      (fun t => (t.about SettingName.normalizeJoinKinds.path).value?) = some (some (.bool true)) := by
    decide +kernel
  have hflags : KnownFlags given := by
    unfold KnownFlags
    decide
  cases hload : Plan.load (some joinKindsFile) environment given with
  | error why =>
    rw [hload] at hloaded
    cases hloaded
  | ok plan =>
    rw [hload] at hloaded
    have hfalse : plan.settings.normalizeJoinKinds = false := Option.some.inj hloaded
    obtain ⟨fileTree, htree, -⟩ := Plan.load_ok hload
    rw [show SettingTree.ofFile .usual joinKindsFile = .ok fileTree from htree] at hsaid
    have hvalue := Said.value?_eq_some.1 (Option.some.inj hsaid)
    have hpassed : (SettingTree.ofFlags .usual given).about SettingName.normalizeJoinKinds.path =
        .nothing := rfl
    have hclosed : (SettingTree.ofVariables .usual environment).about
        SettingName.normalizeJoinKinds.path = .closed := rfl
    have habove : ∀ t ∈ [SettingTree.ofFlags .usual given, .ofVariables .usual environment],
        ∀ w, t.about SettingName.normalizeJoinKinds.path ≠ .tree (.value w) := by
      simp [hpassed, hclosed]
    have hholds := h _ environment given plan fileTree hflags hload htree .normalizeJoinKinds _
      fileTree [.defaults .usual] (.bool true) rfl habove hvalue
    rw [SettingName.Holds, hfalse] at hholds
    cases hholds

end KustoFacts
