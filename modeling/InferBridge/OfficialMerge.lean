/-
InferBridge/OfficialMerge.lean

The merge of the official definitions (`apply_official_definitions` of
app/model_library_service.py): what it does to the entries of the catalog,
and whether it has anything to do when it is made again.

Design.  Staging is described entry by entry (`Placed`): an entry that is
protected stays, any other one has the official definition at its former
path.  What the call leaves is the staged catalog read back from the file,
and the parser of the catalog strips texts that the parser of the manifest
does not.

Main result.  A merge is conservative and has nothing to do again exactly if
it had nothing to do in the first place, or if every entry that has to stay
and every definition that has to come survives the file
(`official_merge_iff`).
-/
import InferBridge.LibraryMutations
import InferBridge.ManifestCache

namespace InferBridge.ModelLibrary

open Text

/-! ### Official definitions -/

/-- `definition["trust_remote_code"] = False` -/
def official (request : RegisterRequest) : Definition :=
  requestedDefinition { request with trustRemoteCode := false }

/-- The entry is active, the user's own, or of another source. -/
def Protected (env : Environment) (userIds : List Str) (request : RegisterRequest) (id : Str)
    (cfg : ModelConfig) : Prop :=
  env.active id = true ∨ id ∈ userIds ∨
    (cfg.sourceModel ≠ [] ∧ cfg.sourceModel ≠ request.sourceModel)

/-- What stands under a model may be replaced. -/
def Open (env : Environment) (userIds : List Str) (request : RegisterRequest) (id : Str)
    (existing : Option ModelConfig) : Prop :=
  ∀ cfg, existing = some cfg → ¬Protected env userIds request id cfg

/-- The merge of a manifest into a catalog. -/
structure Merged (env : Environment) (manifest : Manifest) (userIds : List Str)
    (before after : Catalog) : Prop where
  protects : ∀ id request cfg, manifest.catalog.get? id = some request →
    before.get? id = some cfg → Protected env userIds request id cfg → after.get? id = some cfg
  replaces : ∀ id request, manifest.catalog.get? id = some request →
    Open env userIds request id (before.get? id) →
      ∃ cfg, after.get? id = some cfg ∧ modelDefinition cfg = official request ∧
        ∀ old, before.get? id = some old → cfg.modelPath = old.modelPath
  unlisted : ∀ id, manifest.catalog.get? id = none → after.get? id = before.get? id

/-- The user index that a library has. -/
def Library.userIds (s : Library) : List Str := (readUserIds s.userFile).getD []

/-- The merge was conservative, and made again it reports no model and leaves all as it is. -/
def ConservativeIdempotent (env : Environment) (manifest : Manifest) (s s' : Library) : Prop :=
  Merged env manifest s.userIds s.catalog s'.catalog ∧
    ∃ report, applyOfficialDefinitions env manifest s' = (.ok report, s') ∧
      report.added = [] ∧ report.updated = []

/-! ### When it is -/

/-- The manifest has nothing that is to be written. -/
def Settled (env : Environment) (manifest : Manifest) (userIds : List Str) (catalog : Catalog) :
    Prop :=
  ∀ id request, manifest.catalog.get? id = some request → ∃ cfg, catalog.get? id = some cfg ∧
    (Protected env userIds request id cfg ∨ modelDefinition cfg = official request)

/-- What stays and what comes is read back from the file as it is written. -/
structure Survives (env : Environment) (manifest : Manifest) (userIds : List Str)
    (catalog : Catalog) : Prop where
  unlisted : ∀ id cfg, manifest.catalog.get? id = none → catalog.get? id = some cfg →
    cfg.id = id ∧ cfg.Canonical
  protects : ∀ id request cfg, manifest.catalog.get? id = some request →
    catalog.get? id = some cfg → Protected env userIds request id cfg →
      cfg.id = id ∧ cfg.Canonical
  replaces : ∀ id request, manifest.catalog.get? id = some request →
    Open env userIds request id (catalog.get? id) →
      (official request).stripped = official request ∧
        ∀ old, catalog.get? id = some old →
          strip isSpace old.modelPath = old.modelPath ∧ old.modelPath ≠ []

/-- Every definition passes the request schema as it is. -/
def Manifest.Accepted (manifest : Manifest) : Prop :=
  ∀ item ∈ manifest.catalog.items,
    RegisterRequest.validate { item.2 with trustRemoteCode := false } =
      some { item.2 with trustRemoteCode := false }

/-! ### Staging, entry by entry -/

variable {env : Environment} {userIds : List Str} {request : RegisterRequest} {id : Str}
variable {existing staged : Option ModelConfig} {written : Prop} {manifest : Manifest}

/-- What staging puts under a model of the manifest. -/
structure Placed (env : Environment) (userIds : List Str) (request : RegisterRequest) (id : Str)
    (existing staged : Option ModelConfig) (written : Prop) : Prop where
  protects : ∀ old, existing = some old → Protected env userIds request id old → staged = some old
  replaces : Open env userIds request id existing → ∃ cfg, staged = some cfg ∧
    modelDefinition cfg = official request ∧ cfg.modelPath = pathFrom existing (env.target id)
  ids : ∀ old, existing = some old → old.id = id
  written : written ↔ ∀ old, existing = some old →
    ¬Protected env userIds request id old ∧ modelDefinition old ≠ official request

theorem definitionToConfig_official {path : ResolvedPath} {cfg : ModelConfig}
    (hvalidate : RegisterRequest.validate { request with trustRemoteCode := false } =
      some { request with trustRemoteCode := false })
    (h : definitionToConfig { request with trustRemoteCode := false } path existing = some cfg) :
    modelDefinition cfg = official request ∧ cfg.modelPath = pathFrom existing path ∧
      ∀ old, existing = some old → old.id = request.modelId := by
  obtain ⟨found, hfound, hdefinition, hpath⟩ := definitionToConfig_eq_some h
  obtain rfl := Option.some.inj (hvalidate.symm.trans hfound)
  refine ⟨hdefinition, hpath, ?_⟩
  rintro old rfl
  rw [definitionToConfig, hvalidate] at h
  by_contra hne
  have hrefused : (none : Option ModelConfig) = some cfg := (if_pos hne).symm.trans h
  cases hrefused

/-- One definition of the manifest. -/
theorem stageOfficialDefinition_placed {staging staging' : Staging} {item : Str × RegisterRequest}
    (hvalidate : RegisterRequest.validate { item.2 with trustRemoteCode := false } =
      some { item.2 with trustRemoteCode := false })
    (hid : item.2.modelId = item.1) (hnew : item.1 ∉ staging.changed)
    (h : stageOfficialDefinition env userIds staging item = .ok staging') :
    Placed env userIds item.2 item.1 (staging.catalog.get? item.1) (staging'.catalog.get? item.1)
        (item.1 ∈ staging'.changed) ∧
      ∀ id, id ≠ item.1 → staging'.catalog.get? id = staging.catalog.get? id ∧
        (id ∈ staging'.changed ↔ id ∈ staging.changed) := by
  unfold stageOfficialDefinition at h
  dsimp only at h
  split at h
  · cases h
  · next cfg hconfig =>
    obtain ⟨hdefinition, hpath, hids⟩ := definitionToConfig_official hvalidate hconfig
    rw [hid] at hids
    split at h
    · next habsent =>
      obtain rfl := Except.ok.inj h
      rw [habsent] at hpath hids ⊢
      refine ⟨⟨fun old hold => (by cases hold), fun _ => ⟨cfg, Dict.get?_set_self _ _ _,
        hdefinition, hpath⟩, hids, ?_⟩, fun id hne => ⟨Dict.get?_set_of_ne _ _ hne, ?_⟩⟩
      · refine iff_of_true ?_ fun old hold => by cases hold
        exact List.mem_append_left _ (List.mem_append_right _ (List.mem_singleton_self _))
      · show id ∈ (staging.added ++ [item.1]) ++ staging.updated ↔
          id ∈ staging.added ++ staging.updated
        simp only [List.mem_append, List.mem_singleton, hne, or_false]
    · next old hold =>
      rw [hold] at hpath hids ⊢
      have hsame (id : Str) : id ∈ staging.changed ↔ id ∈ staging.changed := Iff.rfl
      split at h
      · next hequal =>
        -- the entry has the definition already
        obtain rfl := Except.ok.inj h
        refine ⟨⟨fun other hother _ => hold.trans hother, fun _ => ⟨old, hold,
          hequal.trans hdefinition, rfl⟩, hids, ?_⟩, fun id _ => ⟨rfl, hsame id⟩⟩
        refine iff_of_false hnew fun h => ?_
        exact (h old rfl).2 (hequal.trans hdefinition)
      · next hdifferent =>
        rw [hdefinition] at hdifferent
        split at h
        · next hprotected =>
          -- a conflict
          obtain rfl := Except.ok.inj h
          refine ⟨⟨fun other hother _ => hold.trans hother, fun hopen =>
            absurd hprotected (hopen old rfl), hids, ?_⟩, fun id _ => ⟨rfl, hsame id⟩⟩
          refine iff_of_false hnew fun h => ?_
          exact (h old rfl).1 hprotected
        · next hopen =>
          obtain rfl := Except.ok.inj h
          refine ⟨⟨fun other hother hprotected => ?_, fun _ => ⟨cfg, Dict.get?_set_self _ _ _,
            hdefinition, hpath⟩, hids, ?_⟩, fun id hne => ⟨Dict.get?_set_of_ne _ _ hne, ?_⟩⟩
          · obtain rfl := Option.some.inj hother
            exact absurd hprotected hopen
          · refine iff_of_true ?_ fun other hother => ?_
            · exact List.mem_append_right _ (List.mem_append_right _ (List.mem_singleton_self _))
            · obtain rfl := Option.some.inj hother
              exact ⟨hopen, hdifferent⟩
          · show id ∈ staging.added ++ (staging.updated ++ [item.1]) ↔
              id ∈ staging.added ++ staging.updated
            simp only [List.mem_append, List.mem_singleton, hne, or_false]

/-- The loop over the manifest. -/
theorem stageOfficialDefinitions_placed {staging staging' : Staging}
    {items : List (Str × RegisterRequest)}
    (hvalidate : ∀ item ∈ items, RegisterRequest.validate { item.2 with trustRemoteCode := false } =
      some { item.2 with trustRemoteCode := false })
    (hids : ∀ item ∈ items, item.2.modelId = item.1) (hnodup : (items.map Prod.fst).Nodup)
    (hnew : ∀ item ∈ items, item.1 ∉ staging.changed)
    (h : items.foldlM (stageOfficialDefinition env userIds) staging = .ok staging') :
    (∀ item ∈ items, Placed env userIds item.2 item.1 (staging.catalog.get? item.1)
        (staging'.catalog.get? item.1) (item.1 ∈ staging'.changed)) ∧
      ∀ id, id ∉ items.map Prod.fst → staging'.catalog.get? id = staging.catalog.get? id ∧
        (id ∈ staging'.changed ↔ id ∈ staging.changed) := by
  induction items generalizing staging with
  | nil =>
    rw [List.foldlM_nil] at h
    obtain rfl := Except.ok.inj h
    exact ⟨fun item hitem => absurd hitem List.not_mem_nil, fun id _ => ⟨rfl, Iff.rfl⟩⟩
  | cons first rest ih =>
    rw [List.foldlM_cons] at h
    obtain ⟨middle, hfirst, h⟩ := Accepted.bind_eq_ok.mp h
    obtain ⟨hvalidateFirst, hvalidateRest⟩ := List.forall_mem_cons.mp hvalidate
    obtain ⟨hidFirst, hidsRest⟩ := List.forall_mem_cons.mp hids
    obtain ⟨hnewFirst, hnewRest⟩ := List.forall_mem_cons.mp hnew
    obtain ⟨hnotin, hnodupRest⟩ := List.nodup_cons.mp hnodup
    obtain ⟨hplaced, hother⟩ :=
      stageOfficialDefinition_placed hvalidateFirst hidFirst hnewFirst hfirst
    have hne : ∀ item ∈ rest, item.1 ≠ first.1 := by
      intro item hitem heq
      exact hnotin (heq ▸ List.mem_map_of_mem hitem)
    have hnewMiddle : ∀ item ∈ rest, item.1 ∉ middle.changed := by
      intro item hitem
      rw [(hother item.1 (hne item hitem)).2]
      exact hnewRest item hitem
    obtain ⟨hrest, hbeside⟩ := ih hvalidateRest hidsRest hnodupRest hnewMiddle h
    constructor
    · refine List.forall_mem_cons.mpr ⟨?_, fun item hitem => ?_⟩
      · obtain ⟨hcatalog, hchanged⟩ := hbeside first.1 hnotin
        rw [hcatalog]
        exact { hplaced with written := hchanged.trans hplaced.written }
      · rw [← (hother item.1 (hne item hitem)).1]
        exact hrest item hitem
    · intro id hid
      rw [List.map_cons, List.mem_cons, not_or] at hid
      obtain ⟨hcatalog, hchanged⟩ := hbeside id hid.2
      obtain ⟨hcatalogFirst, hchangedFirst⟩ := hother id hid.1
      exact ⟨hcatalog.trans hcatalogFirst, hchanged.trans hchangedFirst⟩

/-- A staged manifest. -/
structure StagedOfficial (env : Environment) (manifest : Manifest) (userIds : List Str)
    (catalog : Catalog) (staging : Staging) : Prop where
  placed : ∀ id request, manifest.catalog.get? id = some request →
    Placed env userIds request id (catalog.get? id) (staging.catalog.get? id)
      (id ∈ staging.changed)
  unlisted : ∀ id, manifest.catalog.get? id = none →
    staging.catalog.get? id = catalog.get? id ∧ id ∉ staging.changed

theorem stageOfficial_entries (haccepted : manifest.Accepted) {catalog : Catalog}
    {staging : Staging} (h : stageOfficial env manifest userIds catalog = .ok staging) :
    StagedOfficial env manifest userIds catalog staging := by
  obtain ⟨hplaced, hother⟩ := stageOfficialDefinitions_placed haccepted manifest.ids
    manifest.catalog.nodup (fun item _ => List.not_mem_nil) h
  constructor
  · intro id request hget
    exact hplaced (id, request) (Dict.mem_of_get? hget)
  · intro id hget
    have hnot : id ∉ manifest.catalog.items.map Prod.fst := by
      rw [Dict.mem_keys_iff, hget]
      exact Bool.false_ne_true
    obtain ⟨hcatalog, hchanged⟩ := hother id hnot
    exact ⟨hcatalog, fun hmem => absurd (hchanged.mp hmem) List.not_mem_nil⟩

/-- Something was staged unless the catalog is settled. -/
theorem StagedOfficial.changed_iff {catalog : Catalog} {staging : Staging}
    (h : StagedOfficial env manifest userIds catalog staging) :
    staging.changed = [] ↔ Settled env manifest userIds catalog := by
  constructor
  · intro hnone id request hget
    have hplaced := h.placed id request hget
    have hnot := mt hplaced.written.mpr (hnone ▸ List.not_mem_nil)
    push Not at hnot
    obtain ⟨old, hold, himplies⟩ := hnot
    refine ⟨old, hold, ?_⟩
    by_cases hprotected : Protected env userIds request id old
    · exact .inl hprotected
    · exact .inr (himplies hprotected)
  · intro hsettled
    by_contra hsome
    obtain ⟨id, hid⟩ := List.exists_mem_of_ne_nil _ hsome
    rcases hget : manifest.catalog.get? id with - | request
    · exact (h.unlisted id hget).2 hid
    · obtain ⟨old, hold, hstays⟩ := hsettled id request hget
      obtain ⟨hopen, hdifferent⟩ := (h.placed id request hget).written.mp hid old hold
      exact hstays.elim hopen hdifferent

/-- Where all is settled, staging passes over every definition. -/
theorem stageOfficialDefinitions_settled {catalog : Catalog} {items : List (Str × RegisterRequest)}
    (hvalidate : ∀ item ∈ items, RegisterRequest.validate { item.2 with trustRemoteCode := false } =
      some { item.2 with trustRemoteCode := false })
    (hids : ∀ item ∈ items, item.2.modelId = item.1)
    (hsettled : ∀ item ∈ items, ∃ cfg, catalog.get? item.1 = some cfg ∧ cfg.id = item.1 ∧
      (Protected env userIds item.2 item.1 cfg ∨ modelDefinition cfg = official item.2))
    {staging : Staging} (hcatalog : staging.catalog = catalog) :
    ∃ staging', items.foldlM (stageOfficialDefinition env userIds) staging = .ok staging' ∧
      staging'.changed = staging.changed := by
  induction items generalizing staging with
  | nil => exact ⟨staging, rfl, rfl⟩
  | cons first rest ih =>
    obtain ⟨hvalidateFirst, hvalidateRest⟩ := List.forall_mem_cons.mp hvalidate
    obtain ⟨hidFirst, hidsRest⟩ := List.forall_mem_cons.mp hids
    obtain ⟨⟨old, hold, hid, hstays⟩, hsettledRest⟩ := List.forall_mem_cons.mp hsettled
    obtain ⟨cfg, hconfig⟩ : ∃ cfg, definitionToConfig { first.2 with trustRemoteCode := false }
        (env.target first.1) (some old) = some cfg := by
      rw [definitionToConfig, hvalidateFirst]
      exact ⟨_, if_neg (not_not.mpr (hid.trans hidFirst.symm))⟩
    obtain ⟨hdefinition, -, -⟩ := definitionToConfig_official hvalidateFirst hconfig
    obtain ⟨middle, hmiddle, hcatalogMiddle, hchangedMiddle⟩ : ∃ middle,
        stageOfficialDefinition env userIds staging first = .ok middle ∧
          middle.catalog = catalog ∧ middle.changed = staging.changed := by
      unfold stageOfficialDefinition
      dsimp only
      rw [hcatalog, hold, hconfig]
      dsimp only
      by_cases hequal : modelDefinition old = modelDefinition cfg
      · exact ⟨staging, if_pos hequal, hcatalog, rfl⟩
      · have hprotected : Protected env userIds first.2 first.1 old :=
          hstays.resolve_right fun heq => hequal (heq.trans hdefinition.symm)
        rw [if_neg hequal]
        exact ⟨_, if_pos hprotected, rfl, rfl⟩
    obtain ⟨staging', hrest, hchanged⟩ := ih hvalidateRest hidsRest hsettledRest hcatalogMiddle
    refine ⟨staging', ?_, hchanged.trans hchangedMiddle⟩
    rw [List.foldlM_cons]
    exact Accepted.bind_eq_ok.mpr ⟨middle, hmiddle, hrest⟩

/-! ### The call -/

variable {s s' : Library} {report : Report}

theorem commitOfficial_userFile {staged : Catalog}
    (h : undoing
      (do
        saveStep staged
        reloadStep)
      (restoreCatalog s.catalog) s = (.ok (), s')) : s'.userFile = s.userFile := by
  obtain ⟨catalog, file, userFile, directories, fault⟩ := s
  rcases fault with - | (- | (- | n))
  · obtain ⟨-, rfl⟩ := Prod.mk.inj h
    rfl
  · cases (Prod.mk.inj h).1
  · cases (Prod.mk.inj h).1
  · obtain ⟨-, rfl⟩ := Prod.mk.inj h
    rfl

/-- What a successful call did. -/
theorem applyOfficialDefinitions_ok
    (h : applyOfficialDefinitions env manifest s = (.ok report, s')) :
    readUserIds s.userFile = some s.userIds ∧ s'.userFile = s.userFile ∧
      ∃ staging, stageOfficial env manifest s.userIds s.catalog = .ok staging ∧
        ((staging.changed = [] ∧ s' = s) ∨
          (staging.changed ≠ [] ∧ s'.catalog = reread staging.catalog)) := by
  unfold applyOfficialDefinitions at h
  rw [readIndex_bind] at h
  rcases hids : readUserIds s.userFile with - | ids
  · rw [hids] at h
    cases h
  rw [hids] at h
  dsimp only at h
  have huser : s.userIds = ids := by
    rw [Library.userIds, hids]
    rfl
  rw [huser]
  rw [check_bind] at h
  rcases hstage : stageOfficial env manifest ids s.catalog with e | staging
  · rw [hstage] at h
    cases h
  rw [hstage] at h
  dsimp only at h
  rw [get_bind] at h
  by_cases hchanged : staging.changed = []
  · rw [if_neg (not_not.mpr hchanged)] at h
    obtain ⟨-, rfl⟩ := Prod.mk.inj h
    exact ⟨rfl, rfl, staging, rfl, .inl ⟨hchanged, rfl⟩⟩
  · rw [if_pos hchanged] at h
    obtain ⟨hfails, hcommits⟩ := commitOfficial_spec staging.catalog s
    rcases hfault : faultWithin 2 s with - | -
    · obtain ⟨s'', hrun, hcommitted⟩ := hcommits hfault
      rw [bind_ok hrun] at h
      obtain ⟨-, rfl⟩ := Prod.mk.inj h
      exact ⟨rfl, commitOfficial_userFile hrun, staging, rfl, .inr ⟨hchanged, hcommitted.catalog⟩⟩
    · obtain ⟨e, s'', hrun, -⟩ := hfails hfault
      rw [bind_error hrun] at h
      cases h

/-- A call that has nothing to write. -/
theorem applyOfficialDefinitions_unchanged {staging : Staging}
    (hids : readUserIds s.userFile = some userIds)
    (hstage : stageOfficial env manifest userIds s.catalog = .ok staging)
    (hchanged : staging.changed = []) :
    applyOfficialDefinitions env manifest s = (.ok staging.report, s) := by
  unfold applyOfficialDefinitions
  rw [readIndex_bind, hids]
  dsimp only
  rw [check_bind, hstage]
  dsimp only
  rw [get_bind, if_neg (not_not.mpr hchanged)]
  rfl

/-! ### Reading back -/

/-- A definition survives the file if its texts are stripped, and the path with it. -/
theorem readBack_official {cfg : ModelConfig} {path : ResolvedPath}
    (hvalid : ({ request with trustRemoteCode := false } : RegisterRequest).Valid)
    (hid : request.modelId = id) (hdefinition : modelDefinition cfg = official request)
    (hpath : cfg.modelPath = pathFrom existing path) :
    (∃ cfg', coerceEntry id (saveEntry cfg) = some cfg' ∧ modelDefinition cfg' = official request ∧
        ∀ old, existing = some old → cfg'.modelPath = old.modelPath) ↔
      (official request).stripped = official request ∧
        ∀ old, existing = some old → strip isSpace old.modelPath = old.modelPath ∧
          old.modelPath ≠ [] := by
  constructor
  · rintro ⟨cfg', hread, hcfg', hpath'⟩
    obtain ⟨-, hsolid, hstrip, e, -, heq⟩ := coerceEntry_saveEntry_eq_some hread
    rw [hcfg', hdefinition] at heq
    constructor
    · have hname := congrArg Definition.name heq
      have hdescription := congrArg Definition.description heq
      have hsource := congrArg Definition.sourceModel heq
      show Definition.mk _ _ _ _ _ _ _ _ _ _ = Definition.mk _ _ _ _ _ _ _ _ _ _
      congr 1
      · exact hname.symm
      · exact hdescription.symm
      · exact hsource.symm
    · rintro old rfl
      have hold : cfg.modelPath = old.modelPath := hpath
      rw [hold] at hsolid hstrip
      have hsame : strip isSpace old.modelPath = old.modelPath :=
        hstrip.symm.trans (hpath' old rfl)
      exact ⟨hsame, hsame ▸ hsolid⟩
  · rintro ⟨hstripped, hpaths⟩
    have hwellformed := wellformed_of_valid hvalid hdefinition
    obtain rfl : request.modelId = id := hid
    have hname : strip isSpace cfg.name = cfg.name := by
      have hofficial : cfg.name = (official request).name := congrArg Definition.name hdefinition
      rw [hofficial]
      exact congrArg Definition.name hstripped
    have hnonempty : cfg.name ≠ [] := by
      have hofficial : cfg.name = request.name := congrArg Definition.name hdefinition
      rw [hofficial]
      exact hvalid.name
    have hsolid : strip isSpace cfg.modelPath ≠ [] := by
      rw [hpath]
      cases existing with
      | none => exact strip_resolvedPath path
      | some old =>
        obtain ⟨hsame, hne⟩ := hpaths old rfl
        show strip isSpace old.modelPath ≠ []
        rw [hsame]
        exact hne
    obtain ⟨cfg', hread⟩ := Option.isSome_iff_exists.mp
      ((readBack_isSome_iff hwellformed).mpr ⟨hname.symm ▸ hnonempty, hsolid⟩)
    obtain ⟨-, -, hstrip, e, hdevice, heq⟩ := coerceEntry_saveEntry_eq_some hread
    obtain ⟨e', hdevice', hnormalized⟩ :=
      (readDevice_written written_saveEntry).mpr hwellformed.device
    obtain rfl : e = e' := Option.some.inj (hdevice.symm.trans hdevice')
    refine ⟨cfg', hread, ?_, ?_⟩
    · have hdeviceSame : cfg.recommendedDevice = (official request).recommendedDevice :=
        congrArg Definition.recommendedDevice hdefinition
      rw [heq, hdefinition, hstripped, hnormalized, hdeviceSame]
      rfl
    · rintro old rfl
      rw [hstrip, hpath]
      exact (hpaths old rfl).1

/-! ### The merge -/

theorem merged_reread_iff (haccepted : manifest.Accepted) {catalog : Catalog} {staging : Staging}
    (h : StagedOfficial env manifest userIds catalog staging) :
    Merged env manifest userIds catalog (reread staging.catalog) ↔
      Survives env manifest userIds catalog := by
  have hvalid {id : Str} {request : RegisterRequest}
      (hget : manifest.catalog.get? id = some request) :
      ({ request with trustRemoteCode := false } : RegisterRequest).Valid ∧
        request.modelId = id :=
    ⟨(RegisterRequest.validate_eq_some (haccepted _ (Dict.mem_of_get? hget))).1,
      manifest.ids _ (Dict.mem_of_get? hget)⟩
  have hstays {id : Str} {cfg : ModelConfig} (hstaged : staging.catalog.get? id = some cfg) :
      (reread staging.catalog).get? id = some cfg ↔ cfg.id = id ∧ cfg.Canonical := by
    rw [get?_reread, hstaged]
    exact coerceEntry_saveEntry_iff
  have hcomes {id : Str} {request : RegisterRequest}
      (hget : manifest.catalog.get? id = some request)
      (hopen : Open env userIds request id (catalog.get? id)) :
      (∃ cfg, (reread staging.catalog).get? id = some cfg ∧
          modelDefinition cfg = official request ∧
          ∀ old, catalog.get? id = some old → cfg.modelPath = old.modelPath) ↔
        (official request).stripped = official request ∧
          ∀ old, catalog.get? id = some old → strip isSpace old.modelPath = old.modelPath ∧
            old.modelPath ≠ [] := by
    obtain ⟨cfg, hstaged, hdefinition, hpath⟩ := (h.placed id request hget).replaces hopen
    rw [get?_reread, hstaged]
    exact readBack_official (hvalid hget).1 (hvalid hget).2 hdefinition hpath
  constructor
  · intro hmerged
    constructor
    · intro id cfg hget hcfg
      have hstaged := (h.unlisted id hget).1.trans hcfg
      exact (hstays hstaged).mp ((hmerged.unlisted id hget).trans hcfg)
    · intro id request cfg hget hcfg hprotected
      have hstaged := (h.placed id request hget).protects cfg hcfg hprotected
      exact (hstays hstaged).mp (hmerged.protects id request cfg hget hcfg hprotected)
    · intro id request hget hopen
      exact (hcomes hget hopen).mp (hmerged.replaces id request hget hopen)
  · intro hsurvives
    constructor
    · intro id request cfg hget hcfg hprotected
      have hstaged := (h.placed id request hget).protects cfg hcfg hprotected
      exact (hstays hstaged).mpr (hsurvives.protects id request cfg hget hcfg hprotected)
    · intro id request hget hopen
      exact (hcomes hget hopen).mpr (hsurvives.replaces id request hget hopen)
    · intro id hget
      rcases hcfg : catalog.get? id with - | cfg
      · rw [get?_reread, (h.unlisted id hget).1, hcfg]
        rfl
      · have hstaged := (h.unlisted id hget).1.trans hcfg
        exact (hstays hstaged).mpr (hsurvives.unlisted id cfg hget hcfg)

/-- Where nothing is to be written, the catalog is merged as it is. -/
theorem merged_self (hsettled : Settled env manifest userIds catalog) :
    Merged env manifest userIds catalog catalog where
  protects id request cfg _ hcfg _ := hcfg
  replaces id request hget hopen := by
    obtain ⟨cfg, hcfg, hstays⟩ := hsettled id request hget
    refine ⟨cfg, hcfg, hstays.resolve_left (hopen cfg hcfg), fun old hold => ?_⟩
    exact congrArg ModelConfig.modelPath (Option.some.inj (hcfg.symm.trans hold))
  unlisted id _ := rfl

/-- A merged catalog has nothing left to be written. -/
theorem Merged.settled {before after : Catalog} (h : Merged env manifest userIds before after)
    (hbefore : ∀ id request cfg, manifest.catalog.get? id = some request →
      before.get? id = some cfg → cfg.id = id) :
    ∀ id request, manifest.catalog.get? id = some request → ∃ cfg, after.get? id = some cfg ∧
      cfg.id = request.modelId ∧
        (Protected env userIds request id cfg ∨ modelDefinition cfg = official request) := by
  intro id request hget
  have hmodel : request.modelId = id := manifest.ids _ (Dict.mem_of_get? hget)
  by_cases hopen : Open env userIds request id (before.get? id)
  · obtain ⟨cfg, hcfg, hdefinition, -⟩ := h.replaces id request hget hopen
    exact ⟨cfg, hcfg, congrArg Definition.modelId hdefinition, .inr hdefinition⟩
  · unfold Open at hopen
    push Not at hopen
    obtain ⟨cfg, hcfg, hprotected⟩ := hopen
    exact ⟨cfg, h.protects id request cfg hget hcfg hprotected,
      (hbefore id request cfg hget hcfg).trans hmodel.symm, .inl hprotected⟩

/-- For any manifest whose definitions pass the request schema. -/
theorem conservative_iff (haccepted : manifest.Accepted)
    (h : applyOfficialDefinitions env manifest s = (.ok report, s')) :
    ConservativeIdempotent env manifest s s' ↔
      Settled env manifest s.userIds s.catalog ∨ Survives env manifest s.userIds s.catalog := by
  obtain ⟨hids, huser, staging, hstage, hend⟩ := applyOfficialDefinitions_ok h
  have hstaged := stageOfficial_entries haccepted hstage
  have hmerged : Merged env manifest s.userIds s.catalog s'.catalog ↔
      Settled env manifest s.userIds s.catalog ∨ Survives env manifest s.userIds s.catalog := by
    rcases hend with ⟨hnone, rfl⟩ | ⟨hsome, hcatalog⟩
    · have hsettled := hstaged.changed_iff.mp hnone
      exact iff_of_true (merged_self hsettled) (.inl hsettled)
    · have hunsettled := mt hstaged.changed_iff.mpr hsome
      rw [hcatalog, merged_reread_iff haccepted hstaged, or_iff_right hunsettled]
  rw [← hmerged]
  constructor
  · exact And.left
  · intro hmerge
    refine ⟨hmerge, ?_⟩
    -- the second application passes over every definition
    have hsettled := hmerge.settled fun id request cfg hget hcfg =>
      (hstaged.placed id request hget).ids cfg hcfg
    have hitems : ∀ item ∈ manifest.catalog.items, ∃ cfg, s'.catalog.get? item.1 = some cfg ∧
        cfg.id = item.1 ∧ (Protected env s.userIds item.2 item.1 cfg ∨
          modelDefinition cfg = official item.2) := by
      intro item hitem
      have hget : manifest.catalog.get? item.1 = some item.2 := Dict.get?_of_mem hitem
      obtain ⟨cfg, hcfg, hid, hstays⟩ := hsettled item.1 item.2 hget
      exact ⟨cfg, hcfg, hid.trans (manifest.ids item hitem), hstays⟩
    obtain ⟨staging', hstage', hchanged⟩ : ∃ staging',
        stageOfficial env manifest s.userIds s'.catalog = .ok staging' ∧
          staging'.changed = Staging.changed { catalog := s'.catalog } :=
      stageOfficialDefinitions_settled haccepted manifest.ids hitems rfl
    have hnone : staging'.changed = [] := hchanged
    have hids' : readUserIds s'.userFile = some s.userIds := huser ▸ hids
    refine ⟨staging'.report, applyOfficialDefinitions_unchanged hids' hstage' hnone, ?_⟩
    exact List.append_eq_nil_iff.mp hnone

/-! ### A parsed manifest -/

open ModelLibrarySchema

section
variable {β : Type*} {host : Host β} {m : LibraryManifest}

/-- The definitions of a normalised manifest. -/
def officialManifest (h : m.Normal host) : Manifest where
  catalog := m.catalog.mapValues fun _ entry => entry.definition
  ids := by
    intro item hitem
    obtain ⟨entry, hentry, rfl⟩ := List.mem_map.mp hitem
    exact (h.entries entry hentry).modelId.2

theorem officialManifest_accepted (h : m.Normal host) : (officialManifest h).Accepted := by
  intro item hitem
  obtain ⟨entry, hentry, rfl⟩ := List.mem_map.mp hitem
  have hnormal := h.entries entry hentry
  have htrust : { entry.2.definition with trustRemoteCode := false } = entry.2.definition := by
    rw [← hnormal.trustRemoteCode]
  show RegisterRequest.validate { entry.2.definition with trustRemoteCode := false } =
    some { entry.2.definition with trustRemoteCode := false }
  rw [htrust]
  exact hnormal.definition

/-- **The merge of a parsed manifest is conservative and has nothing to do when it is made again
exactly if it had nothing to do at all, or all that stays and all that comes survives the file.** -/
theorem official_merge_iff (hlaw : host.Lawful) {payload : β}
    (hparse : parseManifestBytes host payload = .ok m)
    (h : applyOfficialDefinitions env (officialManifest (parseManifestBytes_normal hlaw hparse)) s =
      (.ok report, s')) :
    ConservativeIdempotent env (officialManifest (parseManifestBytes_normal hlaw hparse)) s s' ↔
      Settled env (officialManifest (parseManifestBytes_normal hlaw hparse)) s.userIds s.catalog ∨
        Survives env (officialManifest (parseManifestBytes_normal hlaw hparse)) s.userIds
          s.catalog :=
  conservative_iff (officialManifest_accepted _) h

end

/-! ### One model, and an empty catalog -/

/-- A call whose persistence steps succeed. -/
theorem applyOfficialDefinitions_commits {staging : Staging}
    (hids : readUserIds s.userFile = some userIds)
    (hstage : stageOfficial env manifest userIds s.catalog = .ok staging)
    (hfault : faultWithin 2 s = false) :
    ∃ s', applyOfficialDefinitions env manifest s = (.ok staging.report, s') := by
  unfold applyOfficialDefinitions
  rw [readIndex_bind, hids]
  dsimp only
  rw [check_bind, hstage]
  dsimp only
  rw [get_bind]
  by_cases hchanged : staging.changed = []
  · rw [if_neg (not_not.mpr hchanged)]
    exact ⟨s, rfl⟩
  · rw [if_pos hchanged]
    obtain ⟨s', hrun, -⟩ := (commitOfficial_spec staging.catalog s).2 hfault
    exact ⟨s', (bind_ok hrun _).trans rfl⟩

/-- One definition, and an empty catalog. -/
theorem stageOfficial_one {definition : RegisterRequest}
    (hitems : manifest.catalog.items = [(id, definition)])
    (hvalid : RegisterRequest.validate { definition with trustRemoteCode := false } =
      some { definition with trustRemoteCode := false }) :
    ∃ staging, stageOfficial env manifest userIds Dict.empty = .ok staging := by
  obtain ⟨cfg, hconfig⟩ : ∃ cfg, definitionToConfig { definition with trustRemoteCode := false }
      (env.target id) none = some cfg := by
    rw [definitionToConfig, hvalid]
    exact ⟨_, rfl⟩
  have habsent : (Dict.empty : Catalog).get? id = none := rfl
  have hone : stageOfficialDefinition env userIds { catalog := Dict.empty } (id, definition) =
      .ok (Staging.add id cfg { catalog := Dict.empty }) := by
    unfold stageOfficialDefinition
    dsimp only
    rw [habsent, hconfig]
  refine ⟨Staging.add id cfg { catalog := Dict.empty }, ?_⟩
  rw [stageOfficial, hitems]
  exact Accepted.bind_eq_ok.mpr ⟨_, hone, rfl⟩

theorem normal_short : (single shortDigest smallRequest).Normal (fileHost shortDigest) :=
  normal_single isSha256_shortDigest validate_smallRequest rfl rfl

theorem parse_short : parseManifestBytes (fileHost shortDigest)
    (.sent (single shortDigest smallRequest).document) = .ok (single shortDigest smallRequest) :=
  parse_sent isSha256_shortDigest normal_short size_short.1

/-- An empty catalog has nothing that could be lost. -/
theorem survives_short : Survives quietEnvironment (officialManifest normal_short)
    emptyLibrary.userIds emptyLibrary.catalog where
  unlisted id cfg _ hcfg := by cases hcfg
  protects id request cfg _ hcfg _ := by cases hcfg
  replaces id request hget _ := by
    have hmem := Dict.mem_of_get? hget
    obtain ⟨rfl, rfl⟩ := Prod.mk.inj (List.mem_singleton.mp hmem)
    exact ⟨by decide, fun old hold => by cases hold⟩

theorem official_merge_iff_short : ∃ report s',
    applyOfficialDefinitions quietEnvironment (officialManifest normal_short) emptyLibrary =
        (.ok report, s') ∧
      ConservativeIdempotent quietEnvironment (officialManifest normal_short) emptyLibrary s' := by
  have hvalid := officialManifest_accepted normal_short _ (List.mem_singleton_self _)
  obtain ⟨staging, hstage⟩ : ∃ staging, stageOfficial quietEnvironment
      (officialManifest normal_short) [] Dict.empty = .ok staging := stageOfficial_one rfl hvalid
  obtain ⟨s', hrun⟩ := applyOfficialDefinitions_commits (s := emptyLibrary) rfl hstage rfl
  exact ⟨_, s', hrun, (official_merge_iff (lawful_fileHost isSha256_shortDigest) parse_short
    hrun).mpr (.inr survives_short)⟩

/-! ### A name with a blank at its end -/

def paddedRequest : RegisterRequest := { smallRequest with name := "M ".toList }

/-- The digest of the catalog with the padded name. -/
def paddedDigest : PyText :=
  key "ed4357ec3a582cd9bfe766040533a7c37ef785549688cd8d70e55e3d6cf96211"

theorem isSha256_paddedDigest : isSha256 paddedDigest = true := by decide

theorem normal_padded : (single paddedDigest paddedRequest).Normal (fileHost paddedDigest) :=
  normal_single isSha256_paddedDigest (by decide +kernel) rfl rfl

theorem parse_padded : parseManifestBytes (fileHost paddedDigest)
    (.sent (single paddedDigest paddedRequest).document) =
      .ok (single paddedDigest paddedRequest) :=
  parse_sent isSha256_paddedDigest normal_padded (by decide +kernel)

theorem padded_get : (officialManifest normal_padded).catalog.get? "m".toList =
    some paddedRequest := rfl

/-- Nothing stands in the way of the padded name, and it does not survive the file. -/
theorem padded_lost : ¬(Settled quietEnvironment (officialManifest normal_padded)
      emptyLibrary.userIds emptyLibrary.catalog ∨
    Survives quietEnvironment (officialManifest normal_padded) emptyLibrary.userIds
      emptyLibrary.catalog) := by
  rintro (hsettled | hsurvives)
  · obtain ⟨cfg, hcfg, -⟩ := hsettled _ _ padded_get
    cases hcfg
  · have hopen : Open quietEnvironment emptyLibrary.userIds paddedRequest "m".toList
        (emptyLibrary.catalog.get? "m".toList) := fun cfg hcfg => by cases hcfg
    have hname := congrArg Definition.name (hsurvives.replaces _ _ padded_get hopen).1
    exact absurd hname (by decide)

/-- The name is read back without its blank, so that every further merge reports the model. -/
theorem paddedName_again : (fileHost paddedDigest).Lawful ∧
    parseManifestBytes (fileHost paddedDigest)
      (.sent (single paddedDigest paddedRequest).document) =
        .ok (single paddedDigest paddedRequest) ∧
    ∃ report s', applyOfficialDefinitions quietEnvironment (officialManifest normal_padded)
        emptyLibrary = (.ok report, s') ∧
      ¬ConservativeIdempotent quietEnvironment (officialManifest normal_padded) emptyLibrary
        s' := by
  have hvalid := officialManifest_accepted normal_padded _ (List.mem_singleton_self _)
  obtain ⟨staging, hstage⟩ : ∃ staging, stageOfficial quietEnvironment
      (officialManifest normal_padded) [] Dict.empty = .ok staging := stageOfficial_one rfl hvalid
  obtain ⟨s', hrun⟩ := applyOfficialDefinitions_commits (s := emptyLibrary) rfl hstage rfl
  refine ⟨lawful_fileHost isSha256_paddedDigest, parse_padded, _, s', hrun, ?_⟩
  intro hproperty
  exact padded_lost ((conservative_iff (officialManifest_accepted normal_padded) hrun).mp hproperty)

end InferBridge.ModelLibrary
