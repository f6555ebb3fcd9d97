/-
InferBridge/LibraryMutations.lean

What the model library leaves behind (app/model_library_service.py): all of a
call or nothing of it.

A call that succeeds reads the catalog back from the file that it wrote, and
the parser of the catalog has rules of its own: it strips every text and skips
an entry whose name is blank, which the request schema accepts.  A call that
fails writes the catalog of before and reads it back in the same way.

Main result: `mutations_faithful_iff`, when a call leaves what it should,
for every catalog, index, request and failing step.  A blank name is what
goes wrong (`blank_import_lost`).
-/
import InferBridge.Lib.Accepted
import InferBridge.ModelLibrary

namespace InferBridge.ModelLibrary

open Text

variable {cfg cfg' : ModelConfig} {id : Str} {catalog : Catalog} {d : RegisterRequest}

/-! ### Reading an entry back -/

/-- What the parser makes of a written entry: its texts are stripped, none of the two that may
not be blank is, and the rest stays. -/
theorem coerceEntry_saveEntry_eq_some (h : coerceEntry id (saveEntry cfg) = some cfg') :
    strip isSpace cfg.name ≠ [] ∧ strip isSpace cfg.modelPath ≠ [] ∧
      cfg'.modelPath = strip isSpace cfg.modelPath ∧ ∃ e, (stringField (saveEntry cfg) "recommended_device".toList "NPU".toList false).bind
          DeviceCheck.parseDeviceExpression = some e ∧
        modelDefinition cfg' =
          { (modelDefinition cfg).stripped with modelId := id, recommendedDevice := e.normalized } := by
  have hw : Written (saveEntry cfg) cfg := written_saveEntry
  generalize saveEntry cfg = raw at h hw
  unfold coerceEntry at h
  simp only [readTrustRemoteCode_written hw, readBackend_written hw, readWeightFormat_written hw,
    readKvPrecision_written hw, Option.bind_eq_bind, Option.bind_some] at h
  split at h
  · cases h
  · simp only [Option.bind_eq_some_iff] at h
    obtain ⟨e, hdevice, context, hcontext, output, houtput, h⟩ := h
    split at h
    · cases h
    · simp only [Option.bind_eq_some_iff] at h
      obtain ⟨name, hname, description, hdescription, path, hpath, source, hsource, h⟩ := h
      obtain ⟨rfl, hname⟩ := (stringField_eq_some hw.name false).mp hname
      obtain ⟨rfl, -⟩ := (stringField_eq_some hw.description true).mp hdescription
      obtain ⟨rfl, hpath⟩ := (stringField_eq_some hw.modelPath false).mp hpath
      obtain ⟨rfl, -⟩ := (stringField_eq_some hw.sourceModel true).mp hsource
      obtain ⟨rfl, -⟩ := (integerField_eq_some hw.maxContextLen).mp hcontext
      obtain ⟨rfl, -⟩ := (integerField_eq_some hw.maxOutputTokens).mp houtput
      obtain rfl := Option.some.inj h
      exact ⟨hname rfl, hpath rfl, rfl, e, Option.bind_eq_some_iff.mpr hdevice, rfl⟩

/-- What the request schema promises of an entry. -/
structure Wellformed (id : Str) (cfg : ModelConfig) : Prop where
  id : isModelId id = true
  device : ∃ e, DeviceCheck.parseDeviceExpression cfg.recommendedDevice = some e ∧
    e.normalized = cfg.recommendedDevice
  context : 128 ≤ cfg.maxContextLen ∧ cfg.maxContextLen ≤ maxContext
  output : 0 ≤ cfg.maxOutputTokens ∧ cfg.maxOutputTokens ≤ maxOutput
  budget : validBudget cfg.backend cfg.maxContextLen cfg.maxOutputTokens = true

/-- An entry as it is read back. -/
theorem readBack_definition (h : coerceEntry id (saveEntry cfg) = some cfg') (hid : cfg.id = id)
    (hdevice : ∃ e, DeviceCheck.parseDeviceExpression cfg.recommendedDevice = some e ∧
      e.normalized = cfg.recommendedDevice) :
    (modelDefinition cfg').stripped = (modelDefinition cfg).stripped := by
  obtain ⟨-, -, -, e, hread, hdefinition⟩ := coerceEntry_saveEntry_eq_some h
  have hw : Written (saveEntry cfg) cfg := written_saveEntry
  obtain ⟨e', hread', hnormalized⟩ : ∃ e, (stringField (saveEntry cfg)
      "recommended_device".toList "NPU".toList false).bind
        DeviceCheck.parseDeviceExpression = some e ∧ e.normalized = cfg.recommendedDevice :=
    (readDevice_written hw).mpr hdevice
  obtain rfl : e = e' := Option.some.inj (hread.symm.trans hread')
  rw [hdefinition, hnormalized, ← hid]
  show Definition.mk _ _ _ _ _ _ _ _ _ _ = Definition.mk _ _ _ _ _ _ _ _ _ _
  simp only [Definition.stripped, modelDefinition, strip_strip]

/-- An entry that the request schema let pass is read back unless one of its texts is blank. -/
theorem readBack_isSome_iff (h : Wellformed id cfg) :
    (coerceEntry id (saveEntry cfg)).isSome ↔
      strip isSpace cfg.name ≠ [] ∧ strip isSpace cfg.modelPath ≠ [] := by
  constructor
  · intro hsome
    obtain ⟨cfg', hread⟩ := Option.isSome_iff_exists.mp hsome
    obtain ⟨hname, hpath, -⟩ := coerceEntry_saveEntry_eq_some hread
    exact ⟨hname, hpath⟩
  · rintro ⟨hname, hpath⟩
    have hw : Written (saveEntry cfg) cfg := written_saveEntry
    generalize saveEntry cfg = raw at hw
    obtain ⟨e, hdevice, -⟩ : ∃ e, (stringField raw "recommended_device".toList "NPU".toList
        false).bind DeviceCheck.parseDeviceExpression = some e ∧
          e.normalized = cfg.recommendedDevice := (readDevice_written hw).mpr h.device
    have hcontext : integerField raw "max_context_len".toList 2048 128 maxContext =
        some cfg.maxContextLen := (integerField_eq_some hw.maxContextLen).mpr ⟨rfl, h.context⟩
    have houtput : integerField raw "max_output_tokens".toList 512 0 maxOutput =
        some cfg.maxOutputTokens := (integerField_eq_some hw.maxOutputTokens).mpr ⟨rfl, h.output⟩
    have hnameRead : stringField raw "name".toList id false = some (strip isSpace cfg.name) :=
      (stringField_eq_some hw.name false).mpr ⟨rfl, fun _ => hname⟩
    have hdescriptionRead : stringField raw "description".toList [] true =
        some (strip isSpace cfg.description) :=
      (stringField_eq_some hw.description true).mpr ⟨rfl, fun h => absurd h (by decide)⟩
    have hpathRead : stringField raw "model_path".toList (modelsRoot ++ id) false =
        some (strip isSpace cfg.modelPath) :=
      (stringField_eq_some hw.modelPath false).mpr ⟨rfl, fun _ => hpath⟩
    have hsourceRead : stringField raw "source_model".toList [] true =
        some (strip isSpace cfg.sourceModel) :=
      (stringField_eq_some hw.sourceModel true).mpr ⟨rfl, fun h => absurd h (by decide)⟩
    unfold coerceEntry
    rw [if_neg (by simp [h.id])]
    simp only [readTrustRemoteCode_written hw, readBackend_written hw, readWeightFormat_written hw,
      Option.bind_eq_bind, Option.bind_some, hdevice, hcontext, houtput, h.budget,
      Bool.true_eq_false, if_false, hnameRead, hdescriptionRead, hpathRead, hsourceRead,
      Option.isSome_some]

/-- The catalog as a reload finds it. -/
def reread (catalog : Catalog) : Catalog := loadCatalog (some (saveCatalog catalog))

theorem get?_reread (catalog : Catalog) (id : Str) :
    (reread catalog).get? id =
      (catalog.get? id).bind fun cfg => coerceEntry id (saveEntry cfg) := by
  show (((catalog.mapValues fun _ cfg => .obj (saveEntry cfg)).filterMap coerceValue).get? id) = _
  rw [Dict.get?_filterMap, Dict.get?_mapValues, Option.bind_map]
  rfl

/-- An undone call leaves the catalog in memory and the file as they were exactly if the file
says what is in memory. -/
theorem reread_eq_iff {file : Option CatalogFile} :
    (reread catalog = catalog ∧ reread catalog = loadCatalog file) ↔ loadCatalog file = catalog := by
  constructor
  · rintro ⟨hmemory, hfile⟩
    exact hfile.symm.trans hmemory
  · intro h
    have hlossless : reread catalog = catalog := by
      apply lossless_iff_canonical.mpr
      rw [← h]
      exact canonicalCatalog_loadCatalog file
    exact ⟨hlossless, hlossless.trans h.symm⟩

/-! ### Definitions -/

/-- A validated request passes its own schema as it is. -/
theorem validate_valid {request request' : RegisterRequest} (hvalid : request.Valid)
    (h : request.validate = some request') : request' = request := by
  obtain ⟨e, hdevice, hnormalized⟩ := hvalid.device
  unfold RegisterRequest.validate at h
  rw [hdevice] at h
  split at h
  · dsimp only at h
    split at h
    · obtain rfl := Option.some.inj h
      rw [hnormalized]
    · cases h
  · cases h

/-- The entry of a definition: what was requested, at the old path of an existing entry. -/
theorem definitionToConfig_eq_some {path : ResolvedPath} {existing : Option ModelConfig}
    (h : definitionToConfig d path existing = some cfg) :
    ∃ request, d.validate = some request ∧ modelDefinition cfg = requestedDefinition request ∧
      cfg.modelPath = (existing.map ModelConfig.modelPath).getD path.text := by
  obtain ⟨request, hvalidate, h⟩ := Option.bind_eq_some_iff.mp h
  refine ⟨request, hvalidate, ?_⟩
  cases existing with
  | none =>
    obtain rfl := Option.some.inj h
    exact ⟨rfl, rfl⟩
  | some old =>
    dsimp only at h
    split at h
    · cases h
    · next hid =>
      obtain rfl := Option.some.inj h
      have hid : old.id = request.modelId := not_not.mp hid
      refine ⟨?_, rfl⟩
      show Definition.mk _ _ _ _ _ _ _ _ _ _ = Definition.mk _ _ _ _ _ _ _ _ _ _
      rw [hid]

theorem strip_resolvedPath (path : ResolvedPath) : strip isSpace path.text ≠ [] := by
  obtain ⟨c, hc, hsolid⟩ := path.absolute
  rw [Ne, strip_eq_nil_iff]
  intro hblank
  have := hblank c hc
  rw [hsolid] at this
  cases this

/-- An entry with a valid definition is one that the schema let pass. -/
theorem wellformed_of_valid (hvalid : d.Valid) (h : modelDefinition cfg = requestedDefinition d) :
    Wellformed d.modelId cfg := by
  have hdevice : cfg.recommendedDevice = d.recommendedDevice :=
    congrArg Definition.recommendedDevice h
  have hcontext : cfg.maxContextLen = d.maxContextLen := congrArg Definition.maxContextLen h
  have houtput : cfg.maxOutputTokens = d.maxOutputTokens := congrArg Definition.maxOutputTokens h
  have hbackend : cfg.backend = d.backend := congrArg Definition.backend h
  constructor
  · exact isModelId_of_pattern hvalid.modelId.1 hvalid.modelId.2
  · rw [hdevice]
    exact hvalid.device
  · rw [hcontext]
    exact hvalid.context
  · rw [houtput]
    exact hvalid.output
  · rw [hbackend, hcontext, houtput]
    exact hvalid.budget

/-! ### What staging prepares -/

/-- The path that an entry of the staged catalog has: that of the entry before it. -/
def pathFrom (existing : Option ModelConfig) (path : ResolvedPath) : Str :=
  (existing.map ModelConfig.modelPath).getD path.text

/-- What holds of a staged catalog and the lists of its report, with the definitions that were
asked for so far. -/
structure Staged (memory : Catalog) (requested : List RegisterRequest) (staging : Staging) :
    Prop where
  valid : ∀ d ∈ requested, d.Valid
  accounted : ∀ id, id ∈ staging.changed ∨ id ∈ staging.unchanged → ∃ d ∈ requested, d.modelId = id
  written : ∀ d ∈ requested, d.modelId ∈ staging.changed →
    ∃ cfg path, staging.catalog.get? d.modelId = some cfg ∧
      modelDefinition cfg = requestedDefinition d ∧
        cfg.modelPath = pathFrom (memory.get? d.modelId) path
  same : ∀ d ∈ requested, d.modelId ∈ staging.unchanged →
    ∃ cfg, memory.get? d.modelId = some cfg ∧ modelDefinition cfg = requestedDefinition d
  untouched : ∀ id, id ∉ staging.changed → staging.catalog.get? id = memory.get? id
  apart : ∀ id ∈ staging.unchanged, id ∉ staging.changed
  updated : ∀ id ∈ staging.changed, (id ∈ staging.updated ↔ (memory.get? id).isSome)

variable {memory : Catalog} {requested : List RegisterRequest} {staging staging' : Staging}
variable {env : Environment}

theorem staged_initial (memory : Catalog) : Staged memory [] { catalog := memory } where
  valid := fun d hd => absurd hd List.not_mem_nil
  accounted := fun id hid => absurd hid (by simp [Staging.changed])
  written := fun d hd => absurd hd List.not_mem_nil
  same := fun d hd => absurd hd List.not_mem_nil
  untouched := fun id _ => rfl
  apart := fun id hid => absurd hid List.not_mem_nil
  updated := fun id hid => absurd hid (by simp [Staging.changed])

/-- A model that no request named so far is in no list. -/
theorem Staged.fresh (h : Staged memory requested staging)
    (hnew : ∀ d' ∈ requested, d'.modelId ≠ id) : id ∉ staging.changed ∧ id ∉ staging.unchanged := by
  constructor
  · intro hmem
    obtain ⟨d', hd', hid⟩ := h.accounted id (Or.inl hmem)
    exact hnew d' hd' hid
  · intro hmem
    obtain ⟨d', hd', hid⟩ := h.accounted id (Or.inr hmem)
    exact hnew d' hd' hid

/-- A definition is staged as an addition or an update. -/
theorem Staged.put (h : Staged memory requested staging) (hvalid : d.Valid)
    (hnew : ∀ d' ∈ requested, d'.modelId ≠ d.modelId)
    (hdefinition : modelDefinition cfg = requestedDefinition d) (path : ResolvedPath)
    (hpath : cfg.modelPath = pathFrom (staging.catalog.get? d.modelId) path)
    (hcatalog : staging'.catalog = staging.catalog.set d.modelId cfg)
    (hchanged : ∀ id, id ∈ staging'.changed ↔ id ∈ staging.changed ∨ id = d.modelId)
    (hunchanged : staging'.unchanged = staging.unchanged)
    (hupdated : ∀ id, id ∈ staging'.updated ↔ id ∈ staging.updated ∨
      (id = d.modelId ∧ (staging.catalog.get? d.modelId).isSome)) :
    Staged memory (requested ++ [d]) staging' := by
  obtain ⟨hfresh, hfreshSame⟩ := h.fresh hnew
  have hold : staging.catalog.get? d.modelId = memory.get? d.modelId := h.untouched _ hfresh
  have hne : ∀ d' ∈ requested, staging'.catalog.get? d'.modelId =
      staging.catalog.get? d'.modelId := by
    intro d' hd'
    rw [hcatalog, Dict.get?_set_of_ne _ _ (hnew d' hd')]
  constructor
  · intro d' hd'
    rcases List.mem_append.mp hd' with hd' | hd'
    · exact h.valid d' hd'
    · rw [List.mem_singleton.mp hd']
      exact hvalid
  · intro id hid
    rw [hchanged, hunchanged, or_right_comm] at hid
    rcases hid with hid | rfl
    · obtain ⟨d', hd', hmodel⟩ := h.accounted id hid
      exact ⟨d', List.mem_append_left _ hd', hmodel⟩
    · exact ⟨d, List.mem_append_right _ (List.mem_singleton_self d), rfl⟩
  · intro d' hd' hmem
    rcases List.mem_append.mp hd' with hd' | hd'
    · rw [hne d' hd']
      apply h.written d' hd'
      exact ((hchanged _).mp hmem).resolve_right (hnew d' hd')
    · rw [List.mem_singleton.mp hd', hcatalog, Dict.get?_set_self]
      exact ⟨cfg, path, rfl, hdefinition, hold ▸ hpath⟩
  · intro d' hd' hmem
    rw [hunchanged] at hmem
    rcases List.mem_append.mp hd' with hd' | hd'
    · exact h.same d' hd' hmem
    · rw [List.mem_singleton.mp hd'] at hmem
      exact absurd hmem hfreshSame
  · intro id hid
    rw [hchanged, not_or] at hid
    rw [hcatalog, Dict.get?_set_of_ne _ _ hid.2]
    exact h.untouched id hid.1
  · intro id hid
    rw [hunchanged] at hid
    rw [hchanged, not_or]
    refine ⟨h.apart id hid, ?_⟩
    rintro rfl
    exact hfreshSame hid
  · intro id hid
    rw [hupdated, hold]
    rcases (hchanged id).mp hid with hid | rfl
    · have hne : id ≠ d.modelId := by
        rintro rfl
        exact hfresh hid
      rw [← h.updated id hid]
      simp [hne]
    · have hnot : d.modelId ∉ staging.updated := fun hmem =>
        hfresh (List.mem_append_right _ hmem)
      simp [hnot]

/-- A definition that changes nothing: it is as the entry is, or it is passed over. -/
theorem Staged.keep (h : Staged memory requested staging) (hvalid : d.Valid)
    (hnew : ∀ d' ∈ requested, d'.modelId ≠ d.modelId)
    (hcatalog : staging'.catalog = staging.catalog) (hadded : staging'.added = staging.added)
    (hupdated : staging'.updated = staging.updated)
    (hunchanged : staging'.unchanged = staging.unchanged ∨
      staging'.unchanged = staging.unchanged ++ [d.modelId] ∧
        ∃ cfg, staging.catalog.get? d.modelId = some cfg ∧
          modelDefinition cfg = requestedDefinition d) :
    Staged memory (requested ++ [d]) staging' := by
  obtain ⟨hfresh, hfreshSame⟩ := h.fresh hnew
  have hchanged : staging'.changed = staging.changed := by
    rw [Staging.changed, hadded, hupdated]
    rfl
  have hsame : ∀ id, id ∈ staging'.unchanged → id ∈ staging.unchanged ∨ id = d.modelId ∧
      ∃ cfg, staging.catalog.get? d.modelId = some cfg ∧
        modelDefinition cfg = requestedDefinition d := by
    intro id hid
    rcases hunchanged with heq | ⟨heq, hcfg⟩
    · rw [heq] at hid
      exact Or.inl hid
    · rw [heq, List.mem_append, List.mem_singleton] at hid
      exact hid.imp_right fun hid => ⟨hid, hcfg⟩
  constructor
  · intro d' hd'
    rcases List.mem_append.mp hd' with hd' | hd'
    · exact h.valid d' hd'
    · rw [List.mem_singleton.mp hd']
      exact hvalid
  · intro id hid
    have hid : (id ∈ staging.changed ∨ id ∈ staging.unchanged) ∨ id = d.modelId := by
      rcases hid with hid | hid
      · exact Or.inl (Or.inl (hchanged ▸ hid))
      · exact (hsame id hid).imp Or.inr And.left
    rcases hid with hid | rfl
    · obtain ⟨d', hd', hmodel⟩ := h.accounted id hid
      exact ⟨d', List.mem_append_left _ hd', hmodel⟩
    · exact ⟨d, List.mem_append_right _ (List.mem_singleton_self d), rfl⟩
  · intro d' hd' hmem
    rw [hchanged] at hmem
    rcases List.mem_append.mp hd' with hd' | hd'
    · rw [hcatalog]
      exact h.written d' hd' hmem
    · rw [List.mem_singleton.mp hd'] at hmem
      exact absurd hmem hfresh
  · intro d' hd' hmem
    rcases List.mem_append.mp hd' with hd' | hd'
    · exact h.same d' hd' ((hsame _ hmem).resolve_right fun heq => hnew d' hd' heq.1)
    · obtain rfl := List.mem_singleton.mp hd'
      obtain ⟨-, cfg, hcfg, hdefinition⟩ := (hsame _ hmem).resolve_left hfreshSame
      exact ⟨cfg, (h.untouched _ hfresh).symm.trans hcfg, hdefinition⟩
  · intro id hid
    rw [hchanged] at hid
    rw [hcatalog]
    exact h.untouched id hid
  · intro id hid
    rw [hchanged]
    rcases hsame id hid with hid | ⟨rfl, -⟩
    · exact h.apart id hid
    · exact hfresh
  · intro id hid
    rw [hchanged] at hid
    rw [hupdated]
    exact h.updated id hid

theorem Staged.add (h : Staged memory requested staging) (hvalid : d.Valid)
    (hnew : ∀ d' ∈ requested, d'.modelId ≠ d.modelId)
    (hdefinition : modelDefinition cfg = requestedDefinition d) (path : ResolvedPath)
    (hpath : cfg.modelPath = pathFrom (staging.catalog.get? d.modelId) path)
    (habsent : staging.catalog.get? d.modelId = none) :
    Staged memory (requested ++ [d]) (staging.add d.modelId cfg) := by
  apply h.put hvalid hnew hdefinition path hpath rfl
  · intro id
    show id ∈ (staging.added ++ [d.modelId]) ++ staging.updated ↔
      id ∈ staging.added ++ staging.updated ∨ _
    simp only [List.mem_append, List.mem_singleton]
    tauto
  · rfl
  · intro id
    rw [habsent]
    simp [Staging.add]

theorem Staged.update (h : Staged memory requested staging) (hvalid : d.Valid)
    (hnew : ∀ d' ∈ requested, d'.modelId ≠ d.modelId)
    (hdefinition : modelDefinition cfg = requestedDefinition d) (path : ResolvedPath)
    (hpath : cfg.modelPath = pathFrom (staging.catalog.get? d.modelId) path)
    {old : ModelConfig} (hold : staging.catalog.get? d.modelId = some old) :
    Staged memory (requested ++ [d]) (staging.update d.modelId cfg) := by
  apply h.put hvalid hnew hdefinition path hpath rfl
  · intro id
    show id ∈ staging.added ++ (staging.updated ++ [d.modelId]) ↔
      id ∈ staging.added ++ staging.updated ∨ _
    simp only [List.mem_append, List.mem_singleton]
    tauto
  · rfl
  · intro id
    rw [hold]
    simp [Staging.update]

/-- One imported definition. -/
theorem Staged.stageParsed {overwrite : Bool} (h : Staged memory requested staging)
    (hseen : ∀ d' ∈ requested, d'.modelId ∈ staging.seenIds) (hvalid : d.Valid)
    (hstage : stageParsed env overwrite staging d = .ok staging') :
    Staged memory (requested ++ [d]) staging' ∧
      ∀ d' ∈ requested ++ [d], d'.modelId ∈ staging'.seenIds := by
  have hseen' : ∀ d' ∈ requested ++ [d], d'.modelId ∈ d.modelId :: staging.seenIds := by
    intro d' hd'
    rcases List.mem_append.mp hd' with hd' | hd'
    · exact List.mem_cons_of_mem _ (hseen d' hd')
    · rw [List.mem_singleton.mp hd']
      exact List.mem_cons_self
  unfold ModelLibrary.stageParsed at hstage
  dsimp only at hstage
  split at hstage
  · cases hstage
  · next hunseen =>
    have hnew : ∀ d' ∈ requested, d'.modelId ≠ d.modelId := by
      intro d' hd' heq
      exact hunseen (heq ▸ hseen d' hd')
    have hmarked : Staged memory requested
        { staging with seenIds := d.modelId :: staging.seenIds } :=
      ⟨h.valid, h.accounted, h.written, h.same, h.untouched, h.apart, h.updated⟩
    split at hstage
    · cases hstage
    · next candidate hconfig =>
      obtain ⟨request, hvalidate, hdefinition, hpath⟩ := definitionToConfig_eq_some hconfig
      obtain rfl := validate_valid hvalid hvalidate
      split at hstage
      · next habsent =>
        cases hstage
        exact ⟨hmarked.add hvalid hnew hdefinition _ hpath habsent, hseen'⟩
      · next old hold =>
        split at hstage
        · next hsame =>
          cases hstage
          refine ⟨hmarked.keep hvalid hnew rfl rfl rfl ?_, hseen'⟩
          exact Or.inr ⟨rfl, old, hold, hsame.trans hdefinition⟩
        · split at hstage
          · cases hstage
          · split at hstage
            · cases hstage
              exact ⟨hmarked.update hvalid hnew hdefinition _ hpath hold, hseen'⟩
            · cases hstage

theorem parseDefinition_valid {key : Str} {raw : List (Str × JsonValue)}
    (h : parseDefinition env key raw = some d) : d.Valid := by
  obtain ⟨request, -, hvalidate⟩ := Option.bind_eq_some_iff.mp h
  exact (RegisterRequest.validate_eq_some hvalidate).1

/-- The loop over the imported definitions, by induction on what is left of them. -/
theorem Staged.stageDefinitions {overwrite : Bool} {models : List (Str × JsonValue)}
    (h : Staged memory requested staging)
    (hseen : ∀ d' ∈ requested, d'.modelId ∈ staging.seenIds)
    (hstage : models.foldlM (stageDefinition env overwrite) staging = .ok staging') :
    Staged memory (requested ++ models.filterMap (requestedBy env)) staging' := by
  induction models generalizing requested staging with
  | nil =>
    rw [List.foldlM_nil] at hstage
    cases hstage
    rw [List.filterMap_nil, List.append_nil]
    exact h
  | cons first rest ih =>
    rw [List.foldlM_cons] at hstage
    obtain ⟨middle, hfirst, hrest⟩ := Accepted.bind_eq_ok.mp hstage
    obtain ⟨key, value⟩ := first
    unfold stageDefinition at hfirst
    split at hfirst
    · next raw hvalue =>
      obtain ⟨rfl, rfl⟩ := Prod.mk.inj hvalue
      split at hfirst
      · cases hfirst
      · next parsed hparsed =>
        obtain ⟨hstaged, hseen⟩ := h.stageParsed hseen (parseDefinition_valid hparsed) hfirst
        have hone : requestedBy env (_, .obj raw) = some parsed := hparsed
        rw [List.filterMap_cons, hone, List.append_cons]
        exact ih hstaged hseen hrest
    · cases hfirst

theorem stageImport_staged {payload : List (Str × JsonValue)} {overwrite : Bool}
    (h : stageImport env payload overwrite memory = .ok staging) :
    Staged memory ((rawModels payload).filterMap (requestedBy env)) staging := by
  unfold stageImport at h
  dsimp only at h
  split at h
  · cases h
  · exact (staged_initial memory).stageDefinitions (fun _ hd' => absurd hd' List.not_mem_nil) h

/-- One official definition. -/
theorem Staged.stageOfficialDefinition {userIds : List Str} {item : Str × RegisterRequest}
    (h : Staged memory requested staging) (hid : item.2.modelId = item.1)
    (hnew : ∀ d' ∈ requested, d'.modelId ≠ item.1)
    (hstage : stageOfficialDefinition env userIds staging item = .ok staging') :
    ∃ d, officialRequest item = some d ∧ d.modelId = item.1 ∧
      Staged memory (requested ++ [d]) staging' := by
  unfold ModelLibrary.stageOfficialDefinition at hstage
  dsimp only at hstage
  split at hstage
  · cases hstage
  · next candidate hconfig =>
    obtain ⟨d, hvalidate, hdefinition, hpath⟩ := definitionToConfig_eq_some hconfig
    obtain ⟨hvalid, device, hd⟩ := RegisterRequest.validate_eq_some hvalidate
    have hmodel : item.1 = d.modelId := by
      rw [hd]
      exact hid.symm
    refine ⟨d, hvalidate, hmodel.symm, ?_⟩
    rw [hmodel] at hnew hstage hpath
    split at hstage
    · next habsent =>
      cases hstage
      exact h.add hvalid hnew hdefinition _ hpath habsent
    · next old hold =>
      split at hstage
      · cases hstage
        exact h.keep hvalid hnew rfl rfl rfl (Or.inl rfl)
      · split at hstage
        · cases hstage
          exact h.keep hvalid hnew rfl rfl rfl (Or.inl rfl)
        · cases hstage
          exact h.update hvalid hnew hdefinition _ hpath hold

/-- The loop over the official definitions; their identifiers are distinct. -/
theorem Staged.stageOfficialDefinitions {userIds : List Str} {items : List (Str × RegisterRequest)}
    (h : Staged memory requested staging) (hids : ∀ item ∈ items, item.2.modelId = item.1)
    (hnodup : (items.map Prod.fst).Nodup)
    (hnew : ∀ d' ∈ requested, d'.modelId ∉ items.map Prod.fst)
    (hstage : items.foldlM (ModelLibrary.stageOfficialDefinition env userIds) staging =
      .ok staging') :
    Staged memory (requested ++ items.filterMap officialRequest) staging' := by
  induction items generalizing requested staging with
  | nil =>
    rw [List.foldlM_nil] at hstage
    cases hstage
    rw [List.filterMap_nil, List.append_nil]
    exact h
  | cons first rest ih =>
    rw [List.foldlM_cons] at hstage
    obtain ⟨middle, hfirst, hrest⟩ := Accepted.bind_eq_ok.mp hstage
    rw [List.map_cons, List.nodup_cons] at hnodup
    have hnewFirst : ∀ d' ∈ requested, d'.modelId ≠ first.1 := by
      intro d' hd' heq
      apply hnew d' hd'
      rw [heq]
      exact List.mem_cons_self
    obtain ⟨d, hone, hmodel, hstaged⟩ :=
      h.stageOfficialDefinition (hids first List.mem_cons_self) hnewFirst hfirst
    rw [List.filterMap_cons, hone, List.append_cons]
    apply ih hstaged (fun item hitem => hids item (List.mem_cons_of_mem _ hitem)) hnodup.2 _ hrest
    intro d' hd'
    rcases List.mem_append.mp hd' with hd' | hd'
    · intro hmem
      exact hnew d' hd' (List.mem_cons_of_mem _ hmem)
    · rw [List.mem_singleton.mp hd', hmodel]
      exact hnodup.1

theorem stageOfficial_staged {manifest : Manifest} {userIds : List Str}
    (h : stageOfficial env manifest userIds memory = .ok staging) :
    Staged memory (manifest.catalog.items.filterMap officialRequest) staging :=
  (staged_initial memory).stageOfficialDefinitions manifest.ids manifest.catalog.nodup
    (fun _ hd' => absurd hd' List.not_mem_nil) h

/-! ### What a call should leave -/

/-- The models of a report are in the catalog as they were asked for, up to white space around
their texts. -/
def Reported (requested : List RegisterRequest) (models : List Str) (catalog : Catalog) : Prop :=
  ∀ id ∈ models, ∃ d ∈ requested, d.modelId = id ∧ ∃ cfg, catalog.get? id = some cfg ∧
    (modelDefinition cfg).stripped = (requestedDefinition d).stripped

/-- The models of a catalog are still there. -/
def Kept (memory catalog : Catalog) : Prop :=
  ∀ id, (memory.get? id).isSome → (catalog.get? id).isSome

/-- What a call leaves: all that it reports if it returns, and nothing if it raises. -/
def LeavesRight (requested : List RegisterRequest) (s : Library) :
    Except LibraryError Report × Library → Prop
  | (.error _, s') =>
    s'.catalog = s.catalog ∧ loadCatalog s'.file = loadCatalog s.file ∧
      s'.userFile = s.userFile ∧ s'.directories ⊆ s.directories
  | (.ok report, s') => Reported requested report.models s'.catalog ∧ Kept s.catalog s'.catalog

/-- The call leaves what it should. -/
def LibraryCall.Faithful (env : Environment) (call : LibraryCall) (s : Library) : Prop :=
  LeavesRight (call.requested env) s (call.perform env s)

/-! ### When it does -/

/-- One of the next `n` persistence steps raises. -/
def faultWithin (n : Nat) (s : Library) : Bool :=
  match s.fault with
  | none => false
  | some k => k < n

/-- The catalog file says what is in memory. -/
def InStep (s : Library) : Prop := loadCatalog s.file = s.catalog

/-- No definition that the call adds or changes has a blank name. -/
def NamesChanged (requested : List RegisterRequest) (changed : List Str) : Prop :=
  ∀ d ∈ requested, d.modelId ∈ changed → strip isSpace d.name ≠ []

/-- The parser of the catalog reads the entries back that the call does not change, and one that
it changes has a path. -/
def Rereadable (memory : Catalog) (updated : List Str) : Prop :=
  ∀ id cfg, memory.get? id = some cfg →
    if id ∈ updated then strip isSpace cfg.modelPath ≠ []
    else (coerceEntry id (saveEntry cfg)).isSome

/-- The changes of a staged catalog are read back. -/
def Accepts (memory : Catalog) (requested : List RegisterRequest) (staging : Staging) : Prop :=
  NamesChanged requested staging.changed ∧ Rereadable memory staging.updated

/-- An adoption that registers nothing: its name is blank, the file says what is in memory and the
index is already as it writes it. -/
def Unnoticed (env : Environment) (req : AdoptRequest) (ids : List Str) (s : Library) : Prop :=
  strip isSpace req.name = [] ∧ InStep s ∧
    s.userFile = .index (userDocument env.utcNow (ids ++ [req.modelId]))

/-- The condition on an import of definitions. -/
def importSound (env : Environment) (payload : List (Str × JsonValue)) (overwrite : Bool)
    (s : Library) : Prop :=
  ∀ staging ids, stageImport env payload overwrite s.catalog = .ok staging →
    readUserIds s.userFile = some ids → staging.changed ≠ [] →
      if faultWithin 3 s then InStep s
      else Accepts s.catalog ((rawModels payload).filterMap (requestedBy env)) staging

def officialSound (env : Environment) (manifest : Manifest) (s : Library) : Prop :=
  ∀ ids staging, readUserIds s.userFile = some ids →
    stageOfficial env manifest ids s.catalog = .ok staging → staging.changed ≠ [] →
      if faultWithin 2 s then InStep s
      else Accepts s.catalog (manifest.catalog.items.filterMap officialRequest) staging

/-- Adding one model. -/
def additionAccepted (memory : Catalog) (name : Str) : Prop :=
  strip isSpace name ≠ [] ∧ Rereadable memory []

def adoptSound (env : Environment) (req : AdoptRequest) (s : Library) : Prop :=
  ∀ ids cfg, checkManaged env req = .ok () → checkUnregistered env req s.catalog = .ok () →
    readUserIds s.userFile = some ids → req.config env = some cfg →
      if faultWithin 3 s then InStep s
      else if (req.facts env).markerReadable then additionAccepted s.catalog req.name
      else Unnoticed env req ids s

/-- Undoing an import whose definition was refused: its own steps may be the ones that raise. -/
def refusalSound (s : Library) : Prop :=
  match s.fault with
  | some 2 => True
  | some 3 => reread s.catalog = loadCatalog s.file
  | _ => InStep s

def convertedSound (env : Environment) (req : ConvertedRequest) (s : Library) : Prop :=
  ∀ ids, checkSource env req s = .ok () → checkCopy env req = .ok () →
    readUserIds s.userFile = some ids →
      if (req.config env).isNone then refusalSound s
      else if faultWithin 5 s then InStep s
      else additionAccepted s.catalog req.name

/-- The condition under which a call leaves what it should. -/
def LibraryCall.Sound (env : Environment) (s : Library) : LibraryCall → Prop
  | .importDefinitions payload overwrite => importSound env payload overwrite s
  | .applyOfficialDefinitions manifest => officialSound env manifest s
  | .adoptManaged req => adoptSound env req s
  | .importConverted req => convertedSound env req s

/-! ### What is committed -/

/-- An entry of the staged catalog that a request put there is read back exactly if its name is
not blank and the path that it keeps is not. -/
theorem Staged.readBack (h : Staged memory requested staging) (hd : d ∈ requested)
    (hchanged : d.modelId ∈ staging.changed) (hname : strip isSpace d.name ≠ [])
    (hkept : Rereadable memory staging.updated) :
    ∃ cfg, (reread staging.catalog).get? d.modelId = some cfg ∧
      (modelDefinition cfg).stripped = (requestedDefinition d).stripped := by
  have hvalid := h.valid d hd
  obtain ⟨cfg, path, hcfg, hdefinition, hpath⟩ := h.written d hd hchanged
  have hwell : Wellformed d.modelId cfg := wellformed_of_valid hvalid hdefinition
  have hnameCfg : cfg.name = d.name := congrArg Definition.name hdefinition
  have hpathCfg : strip isSpace cfg.modelPath ≠ [] := by
    rw [hpath]
    rcases hold : memory.get? d.modelId with - | old
    · exact strip_resolvedPath path
    · have hupdated : d.modelId ∈ staging.updated := by
        apply (h.updated _ hchanged).mpr
        rw [hold]
        rfl
      have hold' := hkept d.modelId old hold
      rw [if_pos hupdated] at hold'
      exact hold'
  have hsome : (coerceEntry d.modelId (saveEntry cfg)).isSome :=
    (readBack_isSome_iff hwell).mpr ⟨hnameCfg ▸ hname, hpathCfg⟩
  obtain ⟨cfg', hread⟩ := Option.isSome_iff_exists.mp hsome
  refine ⟨cfg', ?_, ?_⟩
  · rw [get?_reread, hcfg]
    exact hread
  · rw [readBack_definition hread (congrArg Definition.modelId hdefinition) hwell.device,
      hdefinition]

/-- What a committed catalog leaves. -/
theorem Staged.committed_iff (h : Staged memory requested staging) :
    (Reported requested (staging.added ++ staging.updated ++ staging.unchanged)
          (reread staging.catalog) ∧
        Kept memory (reread staging.catalog)) ↔
      Accepts memory requested staging := by
  constructor
  · rintro ⟨hreported, hkept⟩
    constructor
    · intro d hd hchanged
      obtain ⟨cfg, path, hcfg, hdefinition, -⟩ := h.written d hd hchanged
      obtain ⟨-, -, -, cfg', hread, -⟩ := hreported d.modelId (List.mem_append_left _ hchanged)
      rw [get?_reread, hcfg] at hread
      have hname := (coerceEntry_saveEntry_eq_some hread).1
      rw [show cfg.name = d.name from congrArg Definition.name hdefinition] at hname
      exact hname
    · intro id cfg hcfg
      have hsome : (memory.get? id).isSome := by
        rw [hcfg]
        rfl
      obtain ⟨cfg', hread⟩ := Option.isSome_iff_exists.mp (hkept id hsome)
      split
      · next hupdated =>
        have hchanged : id ∈ staging.changed := List.mem_append_right _ hupdated
        obtain ⟨d, hd, rfl⟩ := h.accounted id (Or.inl hchanged)
        obtain ⟨staged, path, hstaged, -, hpath⟩ := h.written d hd hchanged
        rw [get?_reread, hstaged] at hread
        have hblank := (coerceEntry_saveEntry_eq_some hread).2.1
        rw [hpath, hcfg] at hblank
        exact hblank
      · next hupdated =>
        have hfixed : id ∉ staging.changed := fun hchanged =>
          hupdated ((h.updated id hchanged).mpr hsome)
        rw [get?_reread, h.untouched id hfixed, hcfg] at hread
        exact Option.isSome_of_eq_some hread
  · rintro ⟨hnames, hrereadable⟩
    have hput : ∀ d ∈ requested, d.modelId ∈ staging.changed →
        ∃ cfg, (reread staging.catalog).get? d.modelId = some cfg ∧
          (modelDefinition cfg).stripped = (requestedDefinition d).stripped := fun d hd hchanged =>
      h.readBack hd hchanged (hnames d hd hchanged) hrereadable
    constructor
    · intro id hid
      rcases List.mem_append.mp hid with hchanged | hsame
      · obtain ⟨d, hd, rfl⟩ := h.accounted id (Or.inl hchanged)
        exact ⟨d, hd, rfl, hput d hd hchanged⟩
      · obtain ⟨d, hd, rfl⟩ := h.accounted id (Or.inr hsame)
        obtain ⟨cfg, hcfg, hdefinition⟩ := h.same d hd hsame
        have hfixed := h.apart _ hsame
        have hnot : d.modelId ∉ staging.updated := fun hmem =>
          hfixed (List.mem_append_right _ hmem)
        have hsome := hrereadable d.modelId cfg hcfg
        rw [if_neg hnot] at hsome
        obtain ⟨cfg', hread⟩ := Option.isSome_iff_exists.mp hsome
        refine ⟨d, hd, rfl, cfg', ?_, ?_⟩
        · rw [get?_reread, h.untouched _ hfixed, hcfg]
          exact hread
        · rw [readBack_definition hread (congrArg Definition.modelId hdefinition)
            (wellformed_of_valid (h.valid d hd) hdefinition).device, hdefinition]
    · intro id hsome
      by_cases hchanged : id ∈ staging.changed
      · obtain ⟨d, hd, rfl⟩ := h.accounted id (Or.inl hchanged)
        obtain ⟨cfg, hcfg, -⟩ := hput d hd hchanged
        exact Option.isSome_of_eq_some hcfg
      · obtain ⟨cfg, hcfg⟩ := Option.isSome_iff_exists.mp hsome
        have hnot : id ∉ staging.updated := fun hmem => hchanged (List.mem_append_right _ hmem)
        have hread := hrereadable id cfg hcfg
        rw [if_neg hnot] at hread
        rw [get?_reread, h.untouched id hchanged, hcfg]
        exact hread

/-- A report of models that the call leaves as they are. -/
theorem Staged.reported_unchanged (h : Staged memory requested staging)
    (hchanged : staging.changed = []) :
    Reported requested (staging.added ++ staging.updated ++ staging.unchanged) memory := by
  intro id hid
  have hsame : id ∈ staging.unchanged := by
    rcases List.mem_append.mp hid with hmem | hmem
    · have hmem : id ∈ staging.changed := hmem
      rw [hchanged] at hmem
      cases hmem
    · exact hmem
  obtain ⟨d, hd, rfl⟩ := h.accounted id (Or.inr hsame)
  obtain ⟨cfg, hcfg, hdefinition⟩ := h.same d hd hsame
  exact ⟨d, hd, rfl, cfg, hcfg, by rw [hdefinition]⟩

/-! ### How the programs run -/

variable {α β : Type} {s s' : Library}

theorem check_bind (test : Library → Except LibraryError α) (f : α → LibraryM β) (s : Library) :
    (check test >>= f) s = match test s with
      | .error e => (.error e, s)
      | .ok a => f a s := by
  have hrun : ∀ r, test s = r → (check test).run.run s = (r, s) := by
    rintro r rfl
    rfl
  rcases h : test s with e | a
  · exact run_bind_of_run (hrun _ h) f
  · exact run_bind_of_run (hrun _ h) f

theorem get_bind (f : Library → LibraryM β) (s : Library) : (get >>= f) s = f s s := rfl

theorem bind_ok {x : LibraryM α} {a : α} (h : x s = (.ok a, s')) (f : α → LibraryM β) :
    (x >>= f) s = f a s' := run_bind_of_run h f

theorem bind_error {x : LibraryM α} {e : LibraryError} (h : x s = (.error e, s'))
    (f : α → LibraryM β) : (x >>= f) s = (.error e, s') := run_bind_of_run h f

theorem tryCatch_ok {x : LibraryM α} {a : α} (h : x s = (.ok a, s'))
    (handler : LibraryError → LibraryM α) : tryCatch x handler s = (.ok a, s') := by
  show (ExceptT.tryCatch x handler) s = _
  simp only [ExceptT.tryCatch, ExceptT.mk, Bind.bind, StateT.bind, h]
  rfl

theorem tryCatch_error {x : LibraryM α} {e : LibraryError} (h : x s = (.error e, s'))
    (handler : LibraryError → LibraryM α) : tryCatch x handler s = handler e s' := by
  show (ExceptT.tryCatch x handler) s = _
  simp only [ExceptT.tryCatch, ExceptT.mk, Bind.bind, StateT.bind, h]

/-- What undoing a call leaves. -/
structure Undone (s s' : Library) : Prop where
  catalog : s'.catalog = reread s.catalog
  file : s'.file = some (saveCatalog s.catalog)
  userFile : s'.userFile = s.userFile
  directories : s'.directories ⊆ s.directories

/-- An undone call left everything as it was exactly if the file says what is in memory. -/
theorem Undone.leavesRight_iff {requested : List RegisterRequest} {e : LibraryError}
    (h : Undone s s') : LeavesRight requested s (.error e, s') ↔ InStep s := by
  show (s'.catalog = s.catalog ∧ loadCatalog s'.file = loadCatalog s.file ∧
    s'.userFile = s.userFile ∧ s'.directories ⊆ s.directories) ↔ loadCatalog s.file = s.catalog
  rw [h.catalog, h.file]
  constructor
  · rintro ⟨hcatalog, hfile, -, -⟩
    exact reread_eq_iff.mp ⟨hcatalog, hfile⟩
  · intro hstep
    obtain ⟨hcatalog, hfile⟩ := reread_eq_iff.mpr hstep
    exact ⟨hcatalog, hfile, h.userFile, h.directories⟩

/-- What a committed call leaves in the catalog and its file. -/
structure Committed (staged : Catalog) (s' : Library) : Prop where
  catalog : s'.catalog = reread staged
  file : s'.file = some (saveCatalog staged)

/-- A call that raised before it wrote anything. -/
theorem leavesRight_refused {requested : List RegisterRequest} {e : LibraryError} :
    LeavesRight requested s (.error e, s) :=
  ⟨rfl, rfl, rfl, List.Subset.refl _⟩

/-- The persistence of an import of definitions. -/
theorem commitImport_spec (env : Environment) (staged : Catalog) (ids : List Str) (s : Library) :
    (faultWithin 3 s = true → ∃ e s', undoing
        (do
          saveStep staged
          writeUserIds env ids
          reloadStep)
        (restore s.userFile s.catalog) s = (.error e, s') ∧ Undone s s') ∧
      (faultWithin 3 s = false → ∃ s', undoing
        (do
          saveStep staged
          writeUserIds env ids
          reloadStep)
        (restore s.userFile s.catalog) s = (.ok (), s') ∧ Committed staged s') := by
  obtain ⟨catalog, file, userFile, directories, fault⟩ := s
  constructor
  · intro hfault
    rcases fault with - | (- | (- | (- | n)))
    · cases hfault
    · exact ⟨_, _, rfl, ⟨rfl, rfl, rfl, List.Subset.refl _⟩⟩
    · exact ⟨_, _, rfl, ⟨rfl, rfl, rfl, List.Subset.refl _⟩⟩
    · exact ⟨_, _, rfl, ⟨rfl, rfl, rfl, List.Subset.refl _⟩⟩
    · have hlt : decide (n + 3 < 3) = true := hfault
      exact absurd (of_decide_eq_true hlt) (by omega)
  · intro hfault
    rcases fault with - | (- | (- | (- | n)))
    · exact ⟨_, rfl, ⟨rfl, rfl⟩⟩
    · cases hfault
    · cases hfault
    · cases hfault
    · exact ⟨_, rfl, ⟨rfl, rfl⟩⟩

theorem commitOfficial_spec (staged : Catalog) (s : Library) :
    (faultWithin 2 s = true → ∃ e s', undoing
        (do
          saveStep staged
          reloadStep)
        (restoreCatalog s.catalog) s = (.error e, s') ∧ Undone s s') ∧
      (faultWithin 2 s = false → ∃ s', undoing
        (do
          saveStep staged
          reloadStep)
        (restoreCatalog s.catalog) s = (.ok (), s') ∧ Committed staged s') := by
  obtain ⟨catalog, file, userFile, directories, fault⟩ := s
  constructor
  · intro hfault
    rcases fault with - | (- | (- | n))
    · cases hfault
    · exact ⟨_, _, rfl, ⟨rfl, rfl, rfl, List.Subset.refl _⟩⟩
    · exact ⟨_, _, rfl, ⟨rfl, rfl, rfl, List.Subset.refl _⟩⟩
    · have hlt : decide (n + 2 < 2) = true := hfault
      exact absurd (of_decide_eq_true hlt) (by omega)
  · intro hfault
    rcases fault with - | (- | (- | n))
    · exact ⟨_, rfl, ⟨rfl, rfl⟩⟩
    · cases hfault
    · cases hfault
    · exact ⟨_, rfl, ⟨rfl, rfl⟩⟩

theorem commitAdoption_spec (env : Environment) (staged : Catalog) (ids : List Str) (s : Library) :
    (faultWithin 3 s = true → ∃ e s', undoing
        (do
          writeUserIds env ids
          saveStep staged
          reloadStep)
        (restore s.userFile s.catalog) s = (.error e, s') ∧ Undone s s') ∧
      (faultWithin 3 s = false → ∃ s', undoing
        (do
          writeUserIds env ids
          saveStep staged
          reloadStep)
        (restore s.userFile s.catalog) s = (.ok (), s') ∧ Committed staged s' ∧
          s'.userFile = .index (userDocument env.utcNow ids) ∧
            s'.directories = s.directories) := by
  obtain ⟨catalog, file, userFile, directories, fault⟩ := s
  constructor
  · intro hfault
    rcases fault with - | (- | (- | (- | n)))
    · cases hfault
    · exact ⟨_, _, rfl, ⟨rfl, rfl, rfl, List.Subset.refl _⟩⟩
    · exact ⟨_, _, rfl, ⟨rfl, rfl, rfl, List.Subset.refl _⟩⟩
    · exact ⟨_, _, rfl, ⟨rfl, rfl, rfl, List.Subset.refl _⟩⟩
    · have hlt : decide (n + 3 < 3) = true := hfault
      exact absurd (of_decide_eq_true hlt) (by omega)
  · intro hfault
    rcases fault with - | (- | (- | (- | n)))
    · exact ⟨_, rfl, ⟨rfl, rfl⟩, rfl, rfl⟩
    · cases hfault
    · cases hfault
    · cases hfault
    · exact ⟨_, rfl, ⟨rfl, rfl⟩, rfl, rfl⟩

/-! ### The calls -/

/-- A call that wrote a staged catalog. -/
theorem Staged.leavesRight_iff (h : Staged s.catalog requested staging) {report : Report}
    (hmodels : report.models = staging.added ++ staging.updated ++ staging.unchanged)
    (hcommitted : Committed staging.catalog s') :
    LeavesRight requested s (.ok report, s') ↔ Accepts s.catalog requested staging := by
  show (Reported requested report.models s'.catalog ∧ Kept s.catalog s'.catalog) ↔ _
  rw [hmodels, hcommitted.catalog]
  exact h.committed_iff

/-- A call that writes a staged catalog: undone by a failing step, or committed. -/
theorem Staged.commit_iff (h : Staged s.catalog requested staging) {n : Nat} {report : Report}
    {x : LibraryM Unit}
    (hmodels : report.models = staging.added ++ staging.updated ++ staging.unchanged)
    (hspec : (faultWithin n s = true → ∃ e s', x s = (.error e, s') ∧ Undone s s') ∧
      (faultWithin n s = false → ∃ s', x s = (.ok (), s') ∧ Committed staging.catalog s')) :
    LeavesRight requested s ((x >>= fun _ => pure report) s) ↔
      if faultWithin n s then InStep s else Accepts s.catalog requested staging := by
  rcases hfault : faultWithin n s with - | -
  · obtain ⟨s', hrun, hcommitted⟩ := hspec.2 hfault
    rw [bind_ok hrun, if_neg (by decide)]
    exact h.leavesRight_iff hmodels hcommitted
  · obtain ⟨e, s', hrun, hundone⟩ := hspec.1 hfault
    rw [bind_error hrun, if_pos rfl]
    exact hundone.leavesRight_iff

theorem report_models (staging : Staging) :
    staging.report.models = staging.added ++ staging.updated ++ staging.unchanged :=
  List.append_nil _

theorem readIndex_bind (f : List Str → LibraryM β) (s : Library) :
    (readIndex >>= f) s = match readUserIds s.userFile with
      | none => (.error .userIndex, s)
      | some ids => f ids s := by
  unfold readIndex
  rw [check_bind]
  rcases readUserIds s.userFile with - | ids <;> rfl

theorem writeUserIds_spec (env : Environment) (ids : List Str) (s : Library) :
    (∃ e s', writeUserIds env ids s = (.error e, s') ∧ s'.catalog = s.catalog ∧
        s'.file = s.file ∧ s'.userFile = s.userFile ∧ s'.directories = s.directories) ∨
      ∃ s', writeUserIds env ids s = (.ok (), s') ∧ s'.catalog = s.catalog := by
  obtain ⟨catalog, file, userFile, directories, fault⟩ := s
  rcases fault with - | (- | n)
  · exact Or.inr ⟨_, rfl, rfl⟩
  · exact Or.inl ⟨_, _, rfl, rfl, rfl, rfl, rfl⟩
  · exact Or.inr ⟨_, rfl, rfl⟩

theorem importDefinitions_iff {payload : List (Str × JsonValue)} {overwrite : Bool} :
    LeavesRight ((rawModels payload).filterMap (requestedBy env)) s
        (importDefinitions env payload overwrite s) ↔ importSound env payload overwrite s := by
  unfold importDefinitions importSound
  rw [check_bind]
  rcases hstage : stageImport env payload overwrite s.catalog with e | staging
  · refine iff_of_true leavesRight_refused ?_
    intro staging ids hstaging
    cases hstaging
  · dsimp only
    rw [readIndex_bind]
    rcases hids : readUserIds s.userFile with - | ids
    · refine iff_of_true leavesRight_refused ?_
      intro staging ids _ hread
      cases hread
    · have hstaged := stageImport_staged hstage
      dsimp only
      rw [get_bind]
      by_cases hchanged : staging.changed = []
      · -- only the index is written
        rw [if_neg (not_not.mpr hchanged)]
        have hreported := hstaged.reported_unchanged hchanged
        refine iff_of_true ?_ ?_
        · rcases writeUserIds_spec env
            (ids ++ staging.added ++ staging.updated ++ staging.unchanged) s with
            ⟨e, s', hrun, hcatalog, hfile, huser, hdirectories⟩ | ⟨s', hrun, hcatalog⟩
          · rw [bind_error hrun]
            exact ⟨hcatalog, congrArg loadCatalog hfile, huser, fun _ h => hdirectories ▸ h⟩
          · rw [bind_ok hrun]
            show Reported _ staging.report.models s'.catalog ∧ Kept s.catalog s'.catalog
            rw [report_models, hcatalog]
            exact ⟨hreported, fun _ h => h⟩
        · intro staging' ids' hstaging' _ hchanged'
          cases hstaging'
          exact absurd hchanged hchanged'
      · rw [if_pos hchanged]
        have hcondition : (∀ staging' ids',
            (Except.ok staging : Except LibraryError Staging) = .ok staging' →
              some ids = some ids' → staging'.changed ≠ [] → if faultWithin 3 s then InStep s
                else Accepts s.catalog ((rawModels payload).filterMap (requestedBy env)) staging') ↔
            if faultWithin 3 s then InStep s
              else Accepts s.catalog ((rawModels payload).filterMap (requestedBy env)) staging := by
          constructor
          · intro h
            exact h staging ids rfl rfl hchanged
          · rintro h _ _ ⟨⟩ _ _
            exact h
        refine Iff.trans ?_ hcondition.symm
        exact hstaged.commit_iff (report_models staging) (commitImport_spec env staging.catalog _ s)

theorem applyOfficialDefinitions_iff {manifest : Manifest} :
    LeavesRight (manifest.catalog.items.filterMap officialRequest) s
        (applyOfficialDefinitions env manifest s) ↔ officialSound env manifest s := by
  unfold applyOfficialDefinitions officialSound
  rw [readIndex_bind]
  rcases hids : readUserIds s.userFile with - | ids
  · refine iff_of_true leavesRight_refused ?_
    intro ids staging hread
    cases hread
  · dsimp only
    rw [check_bind]
    rcases hstage : stageOfficial env manifest ids s.catalog with e | staging
    · refine iff_of_true leavesRight_refused ?_
      intro ids' staging hread hstaging
      cases hread
      rw [hstage] at hstaging
      cases hstaging
    · have hstaged := stageOfficial_staged hstage
      dsimp only
      rw [get_bind]
      by_cases hchanged : staging.changed = []
      · rw [if_neg (not_not.mpr hchanged)]
        have hreported := hstaged.reported_unchanged hchanged
        refine iff_of_true ?_ ?_
        · show Reported _ staging.report.models s.catalog ∧ Kept s.catalog s.catalog
          rw [report_models]
          exact ⟨hreported, fun _ h => h⟩
        · intro ids' staging' hread hstaging' hchanged'
          cases hread
          rw [hstage] at hstaging'
          cases hstaging'
          exact absurd hchanged hchanged'
      · rw [if_pos hchanged]
        refine Iff.trans
          (hstaged.commit_iff (report_models staging) (commitOfficial_spec staging.catalog s)) ?_
        constructor
        · intro h ids' staging' hread hstaging' _
          cases hread
          rw [hstage] at hstaging'
          cases hstaging'
          exact h
        · intro h
          exact h ids staging rfl hstage hchanged

/-- One added model. -/
def addition (memory : Catalog) (id : Str) (cfg : ModelConfig) : Staging :=
  { catalog := memory.set id cfg, added := [id] }

theorem addition_staged (hvalid : d.Valid) (hdefinition : modelDefinition cfg = requestedDefinition d)
    (path : ResolvedPath) (hpath : cfg.modelPath = path.text)
    (habsent : memory.get? d.modelId = none) :
    Staged memory [d] (addition memory d.modelId cfg) := by
  apply (staged_initial memory).add hvalid (fun _ hd' => absurd hd' List.not_mem_nil) hdefinition
    path _ habsent
  show cfg.modelPath = pathFrom (memory.get? d.modelId) path
  rw [habsent]
  exact hpath

theorem additionAccepted_iff (cfg : ModelConfig) {model : LocalModel} {directory : Str}
    (hvalidate : (model.definition directory).validate = some d) :
    Accepts memory [d] (addition memory d.modelId cfg) ↔ additionAccepted memory model.name := by
  obtain ⟨-, device, hd⟩ := RegisterRequest.validate_eq_some hvalidate
  have hname : d.name = model.name := by
    rw [hd]
    rfl
  show (NamesChanged [d] [d.modelId] ∧ Rereadable memory []) ↔ _
  refine and_congr_left fun _ => ?_
  constructor
  · intro h
    rw [← hname]
    exact h d (List.mem_singleton_self d) (List.mem_singleton_self _)
  · intro h d' hd' _
    rw [List.mem_singleton.mp hd', hname]
    exact h

/-- A new entry that is not read back is as if it had not been added. -/
theorem reread_set_dropped (habsent : memory.get? id = none)
    (hdropped : coerceEntry id (saveEntry cfg) = none) :
    reread (memory.set id cfg) = reread memory := by
  apply Dict.ext
  show ((((memory.set id cfg).items.map fun item => (item.1, JsonValue.obj (saveEntry item.2)))).filterMap
      fun item => (coerceValue item.1 item.2).map (item.1, ·)) = _
  have hlast : [(id, JsonValue.obj (saveEntry cfg))].filterMap
      (fun item => (coerceValue item.1 item.2).map (item.1, ·)) = [] := by
    apply List.filterMap_cons_none
    show (coerceEntry id (saveEntry cfg)).map _ = none
    rw [hdropped]
    rfl
  rw [Dict.items_set_of_new habsent, List.map_append, List.filterMap_append, List.map_singleton,
    hlast]
  exact List.append_nil _

/-- A failure after the commit of an addition. -/
theorem leavesRight_added_iff {requested : List RegisterRequest} {e : LibraryError}
    {req : AdoptRequest} {ids : List Str} {directory : Str} {path : ResolvedPath}
    (hvalidate : (req.definition directory).validate = some d)
    (hdefinition : modelDefinition cfg = requestedDefinition d) (hpath : cfg.modelPath = path.text)
    (habsent : s.catalog.get? req.modelId = none)
    (hcommitted : Committed (s.catalog.set req.modelId cfg) s')
    (huser : s'.userFile = .index (userDocument env.utcNow (ids ++ [req.modelId])))
    (hdirectories : s'.directories = s.directories) :
    LeavesRight requested s (.error e, s') ↔ Unnoticed env req ids s := by
  obtain ⟨hvalid, device, hd⟩ := RegisterRequest.validate_eq_some hvalidate
  have hid : d.modelId = req.modelId := by
    rw [hd]
    rfl
  have hname : cfg.name = req.name := by
    rw [show cfg.name = d.name from congrArg Definition.name hdefinition, hd]
    rfl
  show (s'.catalog = s.catalog ∧ loadCatalog s'.file = loadCatalog s.file ∧
    s'.userFile = s.userFile ∧ s'.directories ⊆ s.directories) ↔ _
  rw [hcommitted.catalog, hcommitted.file, huser]
  constructor
  · rintro ⟨hcatalog, hfile, hindex, -⟩
    have hblank : strip isSpace req.name = [] := by
      by_contra hnonblank
      have hsome : (coerceEntry req.modelId (saveEntry cfg)).isSome := by
        rw [← hid]
        apply (readBack_isSome_iff (wellformed_of_valid hvalid hdefinition)).mpr
        refine ⟨hname ▸ hnonblank, ?_⟩
        rw [hpath]
        exact strip_resolvedPath path
      have hget := get?_reread (s.catalog.set req.modelId cfg) req.modelId
      rw [hcatalog, habsent, Dict.get?_set_self] at hget
      have hnone : coerceEntry req.modelId (saveEntry cfg) = none := hget.symm
      rw [hnone] at hsome
      cases hsome
    have hdropped : coerceEntry req.modelId (saveEntry cfg) = none := by
      rcases hread : coerceEntry req.modelId (saveEntry cfg) with - | cfg'
      · rfl
      · exact absurd (hname ▸ hblank) (coerceEntry_saveEntry_eq_some hread).1
    rw [reread_set_dropped habsent hdropped] at hcatalog
    have hfile' : reread s.catalog = loadCatalog s.file := by
      rw [← reread_set_dropped habsent hdropped]
      exact hfile
    exact ⟨hblank, reread_eq_iff.mp ⟨hcatalog, hfile'⟩, hindex.symm⟩
  · rintro ⟨hblank, hstep, hindex⟩
    have hdropped : coerceEntry req.modelId (saveEntry cfg) = none := by
      rcases hread : coerceEntry req.modelId (saveEntry cfg) with - | cfg'
      · rfl
      · exact absurd (hname ▸ hblank) (coerceEntry_saveEntry_eq_some hread).1
    obtain ⟨hcatalog, hfile⟩ := reread_eq_iff.mpr hstep
    refine ⟨?_, ?_, hindex.symm, fun _ h => hdirectories ▸ h⟩
    · rw [reread_set_dropped habsent hdropped]
      exact hcatalog
    · show reread (s.catalog.set req.modelId cfg) = _
      rw [reread_set_dropped habsent hdropped]
      exact hfile

theorem adoptManaged_iff {req : AdoptRequest} :
    LeavesRight (req.definition (req.facts env).name).validate.toList s (adoptManaged env req s) ↔
      adoptSound env req s := by
  unfold adoptManaged adoptSound
  rw [check_bind]
  rcases hmanaged : checkManaged env req with e | u
  · refine iff_of_true leavesRight_refused ?_
    intro ids cfg h
    cases h
  · dsimp only
    rw [check_bind]
    rcases hfree : checkUnregistered env req s.catalog with e | u
    · refine iff_of_true leavesRight_refused ?_
      intro ids cfg _ h
      cases h
    · dsimp only
      rw [readIndex_bind]
      rcases hids : readUserIds s.userFile with - | ids
      · refine iff_of_true leavesRight_refused ?_
        intro ids cfg _ _ h
        cases h
      · dsimp only
        rw [get_bind, check_bind]
        rcases hconfig : req.config env with - | cfg
        · refine iff_of_true leavesRight_refused ?_
          intro ids cfg _ _ _ h
          cases h
        · obtain ⟨d, hvalidate, hdefinition, hpath⟩ := definitionToConfig_eq_some hconfig
          obtain ⟨hvalid, device, hd⟩ := RegisterRequest.validate_eq_some hvalidate
          have hid : d.modelId = req.modelId := by
            rw [hd]
            rfl
          have habsent : s.catalog.get? req.modelId = none := by
            unfold checkUnregistered at hfree
            split at hfree
            · cases hfree
            · next hnone => simpa using hnone
          have hstaged : Staged s.catalog [d] (addition s.catalog d.modelId cfg) :=
            addition_staged hvalid hdefinition _ hpath (hid ▸ habsent)
          have hcondition : (∀ ids' cfg', (Except.ok u : Except LibraryError Unit) = .ok () →
              (Except.ok u : Except LibraryError Unit) = .ok () → some ids = some ids' →
                some cfg = some cfg' → if faultWithin 3 s then InStep s
                  else if (req.facts env).markerReadable then additionAccepted s.catalog req.name
                  else Unnoticed env req ids' s) ↔
              if faultWithin 3 s then InStep s
                else if (req.facts env).markerReadable then additionAccepted s.catalog req.name
                else Unnoticed env req ids s := by
            constructor
            · intro h
              exact h ids cfg rfl rfl rfl rfl
            · rintro h _ _ - - ⟨⟩ -
              exact h
          refine Iff.trans ?_ hcondition.symm
          rw [hvalidate]
          obtain ⟨hfail, hcommit⟩ := commitAdoption_spec env (s.catalog.set req.modelId cfg)
            (ids ++ [req.modelId]) s
          show LeavesRight [d] s ((undoing _ _ >>= _) s) ↔ _
          rcases hfault : faultWithin 3 s with - | -
          · obtain ⟨s', hrun, hcommitted, huser, hdirectories⟩ := hcommit hfault
            rw [bind_ok hrun, check_bind, if_neg Bool.false_ne_true]
            rcases (req.facts env).markerReadable with - | -
            · exact leavesRight_added_iff hvalidate hdefinition hpath habsent hcommitted huser
                hdirectories
            · rw [if_pos rfl, ← additionAccepted_iff cfg hvalidate]
              apply hstaged.leavesRight_iff
              · show [req.modelId] = [d.modelId]
                rw [hid]
              · show Committed (s.catalog.set d.modelId cfg) s'
                rw [hid]
                exact hcommitted
          · obtain ⟨e, s', hrun, hundone⟩ := hfail hfault
            rw [bind_error hrun, if_pos rfl]
            exact hundone.leavesRight_iff

/-! ### The import of a converted model -/

theorem temp_ne_modelId (req : ConvertedRequest) (env : Environment) :
    req.modelId ≠ req.temp env := by
  intro h
  have hlength : req.modelId.length = (req.temp env).length := congrArg List.length h
  simp only [ConvertedRequest.temp, List.length_cons, List.length_append] at hlength
  omega

/-- The directories while the copy is there. -/
def copied (env : Environment) (req : ConvertedRequest) (s : Library) : Library :=
  { s with directories := req.temp env :: s.directories }

/-- The state once the copy is the directory of the model. -/
def installed (env : Environment) (req : ConvertedRequest) (s : Library) : Library :=
  { s with
    directories :=
      req.modelId :: (req.temp env :: s.directories).filter fun other => other ≠ req.temp env
    fault := s.fault.map Nat.pred }

/-- Removing what was copied leaves no directory that was not there. -/
theorem removed_subset {name : Str} {directories : List Str} :
    (name :: directories).filter (fun other => other ≠ name) ⊆ directories := by
  intro other hmem
  obtain ⟨hmem, hne⟩ := List.mem_filter.mp hmem
  rcases List.mem_cons.mp hmem with rfl | hmem
  · exact absurd rfl (of_decide_eq_true hne)
  · exact hmem

theorem removed_installed (req : ConvertedRequest) (env : Environment) (s : Library) :
    (((installed env req s).directories.filter fun other => other ≠ req.temp env).filter
      fun other => other ≠ req.modelId) ⊆ s.directories := by
  intro other hmem
  obtain ⟨hmem, hne⟩ := List.mem_filter.mp hmem
  have hmem := List.mem_of_mem_filter hmem
  rcases List.mem_cons.mp hmem with rfl | hmem
  · exact absurd rfl (of_decide_eq_true hne)
  · exact removed_subset hmem

/-- What the checks of the source promise under the lock. -/
theorem checkTarget_copied {req : ConvertedRequest} (h : checkSource env req s = .ok ()) :
    s.catalog.get? req.modelId = none ∧ checkTarget req (copied env req s) = .ok () := by
  have hfree : s.catalog.get? req.modelId = none ∧ req.modelId ∉ s.directories := by
    unfold checkSource at h
    dsimp only at h
    split at h
    · cases h
    split at h
    · cases h
    split at h
    · cases h
    split at h
    · cases h
    split at h
    · cases h
    split at h
    · cases h
    split at h
    · cases h
    · next hregistered =>
      split at h
      · cases h
      · next hexists =>
        rw [not_or] at hexists
        exact ⟨by simpa using hregistered, hexists.1⟩
  refine ⟨hfree.1, ?_⟩
  have hnew : req.modelId ∉ (copied env req s).directories := by
    intro hmem
    rcases List.mem_cons.mp hmem with heq | hmem
    · exact temp_ne_modelId req env heq
    · exact hfree.2 hmem
  unfold checkTarget
  rw [show (copied env req s).catalog = s.catalog from rfl, hfree.1, if_neg (by simp), if_neg hnew]

/-- The first part of an import: the copy and the checks under the lock. -/
theorem copyConverted_spec {req : ConvertedRequest} (h : checkSource env req s = .ok ()) :
    (∃ ids, checkCopy env req = .ok () ∧ readUserIds s.userFile = some ids ∧ undoing
        (do
          copyTree env req
          check fun s => checkTarget req s
          readIndex)
        (removeTree (req.temp env)) s = (.ok ids, copied env req s)) ∨
      ((checkCopy env req ≠ .ok () ∨ readUserIds s.userFile = none) ∧ ∃ e s', undoing
        (do
          copyTree env req
          check fun s => checkTarget req s
          readIndex)
        (removeTree (req.temp env)) s = (.error e, s') ∧ s'.catalog = s.catalog ∧
          s'.file = s.file ∧ s'.userFile = s.userFile ∧ s'.directories ⊆ s.directories) := by
  obtain ⟨-, htarget⟩ := checkTarget_copied h
  -- whatever raises, the handler removes the copy
  have hundo : ∀ (e : LibraryError) (body : LibraryM (List Str)),
      body s = (.error e, copied env req s) →
        ∃ s', undoing body (removeTree (req.temp env)) s = (.error e, s') ∧
          s'.catalog = s.catalog ∧ s'.file = s.file ∧ s'.userFile = s.userFile ∧
            s'.directories ⊆ s.directories := by
    intro e body hbody
    have hcatch := tryCatch_error hbody fun e => removeTree (req.temp env) >>= fun _ => throw e
    exact ⟨_, hcatch, rfl, rfl, rfl, removed_subset⟩
  have hcopy : ∀ r, checkCopy env req = r → copyTree env req s = (r, copied env req s) := by
    rintro r rfl
    rfl
  rcases hcheck : checkCopy env req with e | u
  · right
    refine ⟨Or.inl (fun h => by cases h), e, hundo e _ ?_⟩
    exact bind_error (hcopy _ hcheck) _
  · have hindex : ∀ r, readIndex (copied env req s) = r →
        (do
          copyTree env req
          check fun s => checkTarget req s
          readIndex : LibraryM (List Str)) s = r := by
      rintro r rfl
      rw [bind_ok (hcopy _ hcheck), check_bind, htarget]
    have hread : readIndex (copied env req s) = ((match readUserIds s.userFile with
        | none => .error .userIndex
        | some ids => .ok ids), copied env req s) := rfl
    rcases hids : readUserIds s.userFile with - | ids
    · rw [hids] at hread
      right
      exact ⟨Or.inr rfl, _, hundo _ _ (hindex _ hread)⟩
    · rw [hids] at hread
      left
      exact ⟨ids, rfl, rfl, tryCatch_ok (hindex _ hread) _⟩

/-- The second part: the copy becomes the directory of the model. -/
theorem renameConverted_spec (env : Environment) (req : ConvertedRequest) (s : Library) :
    (s.fault = some 0 → ∃ e s', undoing (renameStep env req)
        (do
          removeTree (req.temp env)
          restore s.userFile s.catalog) (copied env req s) = (.error e, s') ∧ Undone s s') ∧
      (s.fault ≠ some 0 → undoing (renameStep env req)
        (do
          removeTree (req.temp env)
          restore s.userFile s.catalog) (copied env req s) = (.ok (), installed env req s)) := by
  obtain ⟨catalog, file, userFile, directories, fault⟩ := s
  rcases fault with - | (- | n)
  · exact ⟨fun h => absurd h (by simp), fun _ => rfl⟩
  · exact ⟨fun _ => ⟨_, _, rfl, ⟨rfl, rfl, rfl, removed_subset⟩⟩, fun h => absurd rfl h⟩
  · exact ⟨fun h => absurd h (by simp), fun _ => rfl⟩

/-- The rest of an import, from the installed directory on. -/
def finishConverted (env : Environment) (req : ConvertedRequest) (ids : List Str) (s : Library) :
    LibraryM Unit :=
  undoing
    (do
      let cfg ← check fun _ => ofOption .invalidDefinition (req.config env)
      attempt .recordMetadata fun s => s
      writeUserIds env (ids ++ [req.modelId])
      saveStep (s.catalog.set req.modelId cfg)
      reloadStep)
    (do
      removeTree (req.temp env)
      removeTree req.modelId
      restore s.userFile s.catalog)

/-- The third part of an import with an entry. -/
theorem finishConverted_spec {req : ConvertedRequest} (ids : List Str)
    (hconfig : req.config env = some cfg) (hrenamed : s.fault ≠ some 0) :
    (faultWithin 5 s = true → ∃ e s', finishConverted env req ids s (installed env req s) =
        (.error e, s') ∧ Undone s s') ∧
      (faultWithin 5 s = false → ∃ s', finishConverted env req ids s (installed env req s) =
        (.ok (), s') ∧ Committed (s.catalog.set req.modelId cfg) s') := by
  have hremoved := removed_installed req env s
  unfold finishConverted
  rw [hconfig]
  obtain ⟨catalog, file, userFile, directories, fault⟩ := s
  constructor
  · intro hfault
    rcases fault with - | (- | (- | (- | (- | (- | n)))))
    · cases hfault
    · exact absurd rfl hrenamed
    · exact ⟨_, _, rfl, ⟨rfl, rfl, rfl, hremoved⟩⟩
    · exact ⟨_, _, rfl, ⟨rfl, rfl, rfl, hremoved⟩⟩
    · exact ⟨_, _, rfl, ⟨rfl, rfl, rfl, hremoved⟩⟩
    · exact ⟨_, _, rfl, ⟨rfl, rfl, rfl, hremoved⟩⟩
    · have hlt : decide (n + 5 < 5) = true := hfault
      exact absurd (of_decide_eq_true hlt) (by omega)
  · intro hfault
    rcases fault with - | (- | (- | (- | (- | (- | n)))))
    · exact ⟨_, rfl, ⟨rfl, rfl⟩⟩
    · cases hfault
    · cases hfault
    · cases hfault
    · cases hfault
    · cases hfault
    · exact ⟨_, rfl, ⟨rfl, rfl⟩⟩

/-- The third part of an import whose definition is refused.  No persistence step of it was made,
so a failing step is one of the handler's. -/
theorem finishConverted_refused_iff {req : ConvertedRequest} {ids : List Str}
    {requested : List RegisterRequest} {f : Unit → LibraryM Report}
    (hconfig : req.config env = none) (hrenamed : s.fault ≠ some 0) :
    LeavesRight requested s ((finishConverted env req ids s >>= f) (installed env req s)) ↔
      refusalSound s := by
  have hremoved := removed_installed req env s
  have hundone : ∀ e s', finishConverted env req ids s (installed env req s) = (.error e, s') →
      Undone s s' → (LeavesRight requested s
        ((finishConverted env req ids s >>= f) (installed env req s)) ↔ InStep s) := by
    intro e s' hrun hundone
    rw [bind_error hrun]
    exact hundone.leavesRight_iff
  unfold finishConverted at hundone ⊢
  rw [hconfig] at hundone ⊢
  obtain ⟨catalog, file, userFile, directories, fault⟩ := s
  rcases fault with - | (- | (- | (- | (- | n))))
  · exact hundone _ _ rfl ⟨rfl, rfl, rfl, hremoved⟩
  · exact absurd rfl hrenamed
  · -- the index is not restored, and was never written
    exact hundone _ _ rfl ⟨rfl, rfl, rfl, hremoved⟩
  · -- the catalog is not saved, and was never written
    exact iff_of_true ⟨rfl, rfl, rfl, hremoved⟩ trivial
  · -- the file is rewritten, and memory is set from what was captured
    constructor
    · rintro ⟨-, hfile, -, -⟩
      exact hfile
    · intro hfile
      exact ⟨rfl, hfile, rfl, hremoved⟩
  · exact hundone _ _ rfl ⟨rfl, rfl, rfl, hremoved⟩

theorem importConverted_iff {req : ConvertedRequest} :
    LeavesRight (req.definition (env.source req.sourcePath).name).validate.toList s
        (importConverted env req s) ↔ convertedSound env req s := by
  unfold importConverted convertedSound
  rw [check_bind]
  rcases hsource : checkSource env req s with e | u
  · refine iff_of_true leavesRight_refused ?_
    intro ids h
    cases h
  · dsimp only
    rcases copyConverted_spec hsource with ⟨ids, hcopy, hids, hrun⟩ |
      ⟨hno, e, s', hrun, hcatalog, hfile, huser, hdirectories⟩
    · rw [bind_ok hrun, get_bind]
      have hcondition : (∀ ids', (Except.ok u : Except LibraryError Unit) = .ok () →
          checkCopy env req = .ok () → readUserIds s.userFile = some ids' →
            if (req.config env).isNone then refusalSound s
            else if faultWithin 5 s then InStep s
            else additionAccepted s.catalog req.name) ↔
          if (req.config env).isNone then refusalSound s
            else if faultWithin 5 s then InStep s
            else additionAccepted s.catalog req.name := by
        constructor
        · intro h
          exact h ids rfl hcopy hids
        · intro h _ _ _ _
          exact h
      refine Iff.trans ?_ hcondition.symm
      show LeavesRight _ s ((undoing (renameStep env req) (do
        removeTree (req.temp env)
        restore s.userFile s.catalog) >>= fun _ => finishConverted env req ids s >>= _)
          (copied env req s)) ↔ _
      obtain ⟨hfail, hrename⟩ := renameConverted_spec env req s
      by_cases hfault : s.fault = some 0
      · obtain ⟨e, s', hrun, hundone⟩ := hfail hfault
        have hwithin : faultWithin 5 s = true := by
          unfold faultWithin
          rw [hfault]
          rfl
        rw [bind_error hrun, hundone.leavesRight_iff, hwithin, if_pos rfl]
        have hrefused : refusalSound s ↔ InStep s := by
          unfold refusalSound
          rw [hfault]
          exact Iff.rfl
        split
        · exact hrefused.symm
        · exact Iff.rfl
      · rw [bind_ok (hrename hfault)]
        rcases hconfig : req.config env with - | cfg
        · exact finishConverted_refused_iff hconfig hfault
        · rw [if_neg (by simp)]
          obtain ⟨d, hvalidate, hdefinition, hpath⟩ := definitionToConfig_eq_some hconfig
          obtain ⟨hvalid, device, hd⟩ := RegisterRequest.validate_eq_some hvalidate
          have hid : d.modelId = req.modelId := by
            rw [hd]
            rfl
          have habsent := (checkTarget_copied hsource).1
          have hstaged : Staged s.catalog [d] (addition s.catalog d.modelId cfg) :=
            addition_staged hvalid hdefinition _ hpath (hid ▸ habsent)
          obtain ⟨hfails, hcommits⟩ := finishConverted_spec ids hconfig hfault
          rw [hvalidate]
          rcases hwithin : faultWithin 5 s with - | -
          · obtain ⟨s', hrun, hcommitted⟩ := hcommits hwithin
            rw [bind_ok hrun, if_neg Bool.false_ne_true, ← additionAccepted_iff cfg hvalidate]
            apply hstaged.leavesRight_iff
            · show [req.modelId] = [d.modelId]
              rw [hid]
            · show Committed (s.catalog.set d.modelId cfg) s'
              rw [hid]
              exact hcommitted
          · obtain ⟨e, s', hrun, hundone⟩ := hfails hwithin
            rw [bind_error hrun, if_pos rfl]
            exact hundone.leavesRight_iff
    · rw [bind_error hrun]
      refine iff_of_true ⟨hcatalog, congrArg loadCatalog hfile, huser, hdirectories⟩ ?_
      intro ids _ hcopy hids
      rcases hno with hno | hno
      · exact absurd hcopy hno
      · rw [hids] at hno
        cases hno

/-! ### The result -/

/-- **All or nothing.** A call leaves what it should exactly if it is sound: when one of its steps
fails, or its definition is refused after the rename, the file must say what is in memory; when none
does, no definition that it adds or changes has a blank name, the parser reads the other entries
back, and the conversion marker of an adopted directory can be decoded. -/
theorem mutations_faithful_iff (env : Environment) (call : LibraryCall) (s : Library) :
    call.Faithful env s ↔ call.Sound env s := by
  cases call with
  | importDefinitions payload overwrite => exact importDefinitions_iff
  | applyOfficialDefinitions manifest => exact applyOfficialDefinitions_iff
  | adoptManaged req => exact adoptManaged_iff
  | importConverted req => exact importConverted_iff

/-! ### A blank name -/

/-- The fields of a definition that are texts; the others have their defaults. -/
def coerceTexts (raw : List (Str × JsonValue)) : Option RegisterRequest :=
  match raw.lookup "model_id".toList, raw.lookup "name".toList,
    raw.lookup "source_model".toList with
  | some (.str modelId), some (.str name), some (.str sourceModel) =>
    some { modelId, name, sourceModel }
  | _, _, _ => none

def somePath : ResolvedPath := ⟨"C:/models/a".toList, 'C', by decide, by decide⟩

def quietEnvironment : Environment where
  coerce := coerceTexts
  target := fun _ => somePath
  active := fun _ => false
  utcNow := "2026-01-01T00:00:00Z".toList
  token := "0123456789ab".toList
  managed := fun name => ⟨false, somePath, name, true, true, some 1, true⟩
  source := fun _ => ⟨true, false, "a".toList, true, some 1, false, false, true, some 1, true⟩
  freeBytes := 0
  resolveEntry := fun _ => none

def emptyLibrary : Library where
  catalog := Dict.empty
  file := none
  userFile := .missing
  directories := []

/-- The payload `{"a": {"name": " ", "source_model": "org/a"}}`. -/
def blankPayload : List (Str × JsonValue) :=
  [("a".toList, .obj [("name".toList, .str " ".toList), ("source_model".toList, .str "org/a".toList)])]

/-- A definition whose name is a blank is reported as added and is not in the catalog. -/
theorem blank_import_lost :
    ¬ (LibraryCall.importDefinitions blankPayload false).Faithful quietEnvironment emptyLibrary := by
  have hrun : ∃ s', importDefinitions quietEnvironment blankPayload false emptyLibrary =
      (.ok { added := ["a".toList] }, s') ∧ s'.catalog.get? "a".toList = none := ⟨_, rfl, rfl⟩
  obtain ⟨s', hrun, habsent⟩ := hrun
  intro hfaithful
  have hleaves : LeavesRight _ emptyLibrary
      (importDefinitions quietEnvironment blankPayload false emptyLibrary) := hfaithful
  rw [hrun] at hleaves
  obtain ⟨-, -, -, cfg, hcfg, -⟩ := hleaves.1 "a".toList List.mem_cons_self
  rw [habsent] at hcfg
  cases hcfg

end InferBridge.ModelLibrary
