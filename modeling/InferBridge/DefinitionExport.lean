/-
InferBridge/DefinitionExport.lean

Exporting definitions and importing them again (`export_definitions` and
`_import_definitions_locked` of app/model_library_service.py).

The export lists entries of the catalog, which the catalog's parser has let
pass; the import checks them with the request schema.  The parser knows no
upper bounds for names, sources and devices and accepts an empty source, so
an export may hold definitions that no import takes (`accepted`).
`import_export_iff`: both imports, into the same state and into an empty
catalog, give back what was exported exactly if there is no such definition.

What pydantic makes of a value of the declared type is the value itself
(`TakesDefinitions`), and no persistence step raises here.
-/
import InferBridge.DeviceGrammar
import InferBridge.LibraryMutations

namespace InferBridge.DefinitionExport

open Text ModelLibrary

/-! ### Export -/

/-- `sorted`, of a set -/
def sortedIds (ids : List Str) : List Str := ids.dedup.mergeSort fun a b => decide (a ≤ b)

/-- The definitions of those models that are in the catalog. -/
def exportedModels (catalog : Catalog) (ids : List Str) : List (Str × Definition) :=
  (sortedIds ids).filterMap fun id => (catalog.get? id).map fun cfg => (id, modelDefinition cfg)

/-- `export_definitions`, with the ids of the manifest; `none` is a `ValueError`. -/
def exportDefinitions (manifestIds : List Str) (includeAll : Bool) (s : Library) :
    Option (List (Str × Definition)) :=
  (readUserIds s.userFile).map fun userIds =>
    exportedModels s.catalog
      (manifestIds ++ userIds ++ if includeAll then s.catalog.items.map Prod.fst else [])

/-- An exported definition as JSON. -/
def definitionFields (definition : Definition) : List (Str × JsonValue) :=
  [("model_id".toList, .str definition.modelId), ("name".toList, .str definition.name),
    ("description".toList, .str definition.description),
    ("source_model".toList, .str definition.sourceModel),
    ("backend".toList, .str definition.backend.text),
    ("weight_format".toList, .str definition.weightFormat.text),
    ("recommended_device".toList, .str definition.recommendedDevice),
    ("max_context_len".toList, .int definition.maxContextLen),
    ("max_output_tokens".toList, .int definition.maxOutputTokens),
    ("trust_remote_code".toList, .bool definition.trustRemoteCode)]

/-- The exported document. -/
def exportPayload (utcNow : Str) (models : List (Str × Definition)) : List (Str × JsonValue) :=
  [("schema_version".toList, .int 1), ("application".toList, .str "InferBridge".toList),
    ("exported_at".toList, .str utcNow),
    ("models".toList, .obj (models.map fun model => (model.1, .obj (definitionFields model.2))))]

/-- The request that an exported definition is read as. -/
def definitionRequest (definition : Definition) : RegisterRequest where
  modelId := definition.modelId
  name := definition.name
  sourceModel := definition.sourceModel
  backend := definition.backend
  weightFormat := definition.weightFormat
  recommendedDevice := definition.recommendedDevice
  maxContextLen := definition.maxContextLen
  maxOutputTokens := definition.maxOutputTokens
  description := some definition.description
  trustRemoteCode := definition.trustRemoteCode

/-- Values of the declared types are taken as they are. -/
def TakesDefinitions (env : ModelLibrary.Environment) : Prop :=
  ∀ definition, env.coerce (definitionFields definition) = some (definitionRequest definition)

/-- What the request schema checks and the catalog's parser does not. -/
def accepted (definition : Definition) : Bool :=
  definition.name.length ≤ 160 && hasLength 1 240 definition.sourceModel &&
    definition.recommendedDevice.length ≤ 64

variable {env : ModelLibrary.Environment} {catalog : Catalog} {cfg : ModelConfig} {id : Str}

/-! ### One definition -/

theorem pattern_of_isModelId (h : isModelId id = true) :
    hasLength 1 128 id = true ∧ matchesIdPattern id = true := by
  cases id with
  | nil => cases h
  | cons c rest =>
    simp only [isModelId, Bool.and_eq_true, decide_eq_true_eq] at h
    refine ⟨?_, Bool.and_eq_true_iff.mpr ⟨h.1.1, h.2⟩⟩
    rw [hasLength, List.length_cons, Bool.and_eq_true, decide_eq_true_eq, decide_eq_true_eq]
    omega

/-- The request schema and the definition of a loaded entry. -/
theorem validate_definition (h : cfg.Canonical) :
    (definitionRequest (modelDefinition cfg)).validate =
      if accepted (modelDefinition cfg) then some (definitionRequest (modelDefinition cfg))
      else none := by
  obtain ⟨e, hdevice, hnormalized⟩ := h.device
  obtain ⟨hidLength, hid⟩ := pattern_of_isModelId h.id
  have hname : 1 ≤ cfg.name.length := List.length_pos_of_ne_nil h.name.2
  have hdeviceLength := DeviceCheck.length_pos_of_parse hdevice
  have hcontext : (128 ≤ cfg.maxContextLen && cfg.maxContextLen ≤ 262144) = true := by
    simpa only [Bool.and_eq_true, decide_eq_true_eq, maxContext] using h.context
  have houtput : (0 ≤ cfg.maxOutputTokens && cfg.maxOutputTokens ≤ 65536) = true := by
    simpa only [Bool.and_eq_true, decide_eq_true_eq, maxOutput] using h.output
  have hchecks : (hasLength 1 128 cfg.id && matchesIdPattern cfg.id && hasLength 1 160 cfg.name &&
      hasLength 1 240 cfg.sourceModel && hasLength 1 64 cfg.recommendedDevice &&
      (128 ≤ cfg.maxContextLen && cfg.maxContextLen ≤ 262144) &&
      (0 ≤ cfg.maxOutputTokens && cfg.maxOutputTokens ≤ 65536)) =
        accepted (modelDefinition cfg) := by
    rw [hidLength, hid, hcontext, houtput, hasLength, hasLength.eq_def 1 64, decide_eq_true hname,
      decide_eq_true hdeviceLength]
    simp only [Bool.true_and, Bool.and_true]
    rfl
  rw [RegisterRequest.validate]
  show (if (hasLength 1 128 cfg.id && matchesIdPattern cfg.id && hasLength 1 160 cfg.name &&
      hasLength 1 240 cfg.sourceModel && hasLength 1 64 cfg.recommendedDevice &&
      (128 ≤ cfg.maxContextLen && cfg.maxContextLen ≤ 262144) &&
      (0 ≤ cfg.maxOutputTokens && cfg.maxOutputTokens ≤ 65536)) = true then _ else _) = _
  rw [hchecks]
  split
  · have hparsed : DeviceCheck.parseDeviceExpression
        (definitionRequest (modelDefinition cfg)).recommendedDevice = some e := hdevice
    have hbudget : validBudget (definitionRequest (modelDefinition cfg)).backend
        (definitionRequest (modelDefinition cfg)).maxContextLen
        (definitionRequest (modelDefinition cfg)).maxOutputTokens = true := h.budget
    simp only [hparsed]
    rw [if_pos hbudget, hnormalized]
    rfl
  · rfl

theorem requestedDefinition_definitionRequest (definition : Definition) :
    requestedDefinition (definitionRequest definition) = definition := rfl

theorem parseDefinition_fields (htakes : TakesDefinitions env) (definition : Definition) :
    parseDefinition env id (definitionFields definition) =
      (definitionRequest definition).validate := by
  have hkeys : withModelId id (definitionFields definition) = definitionFields definition := rfl
  rw [parseDefinition, hkeys, htakes definition]
  rfl

/-! ### Staging an export -/

/-- An exported model as the import receives it. -/
def encode (model : Str × Definition) : Str × JsonValue :=
  (model.1, .obj (definitionFields model.2))

theorem stageDefinition_encode (htakes : TakesDefinitions env) (overwrite : Bool)
    (staging : Staging) (model : Str × Definition) :
    stageDefinition env overwrite staging (encode model) =
      match (definitionRequest model.2).validate with
      | none => .error .invalidDefinition
      | some parsed => stageParsed env overwrite staging parsed := by
  show (match parseDefinition env model.1 (definitionFields model.2) with
    | none => _
    | some parsed => _) = _
  rw [parseDefinition_fields htakes]

/-- One element that is always refused. -/
theorem foldlM_error {α σ ε : Type} {f : σ → α → Except ε σ} {x : α} {e : ε}
    (hx : ∀ s, f s x = .error e) {xs : List α} (hmem : x ∈ xs) (s : σ) :
    ∃ e', xs.foldlM f s = .error e' := by
  induction xs generalizing s with
  | nil => cases hmem
  | cons y ys ih =>
    rw [List.foldlM_cons]
    rcases hy : f s y with e' | t
    · exact ⟨e', rfl⟩
    · rcases List.mem_cons.mp hmem with rfl | hmem
      · rw [hx] at hy
        cases hy
      · exact ih hmem t

/-- The staging after an export that changes nothing. -/
def Staging.keeping (staging : Staging) (ids : List Str) : Staging :=
  { staging with
    seenIds := ids.reverse ++ staging.seenIds
    unchanged := staging.unchanged ++ ids }

/-- The entry is found as it is. -/
structure Current (catalog : Catalog) (model : Str × Definition) : Prop where
  entry : ∃ cfg, catalog.get? model.1 = some cfg ∧ cfg.id = model.1 ∧ cfg.Canonical ∧
    model.2 = modelDefinition cfg

theorem stageDefinition_current (htakes : TakesDefinitions env) (overwrite : Bool)
    {staging : Staging} {model : Str × Definition} (hcurrent : Current staging.catalog model)
    (haccepted : accepted model.2 = true) (hnew : model.1 ∉ staging.seenIds) :
    stageDefinition env overwrite staging (encode model) =
      .ok (Staging.keeping staging [model.1]) := by
  obtain ⟨id, definition⟩ := model
  obtain ⟨cfg, hget, hid, hcanonical, hdefinition⟩ := hcurrent.entry
  obtain rfl : cfg.id = id := hid
  obtain rfl : definition = modelDefinition cfg := hdefinition
  have hvalidate : (definitionRequest (modelDefinition cfg)).validate =
      some (definitionRequest (modelDefinition cfg)) := by
    rw [validate_definition hcanonical, if_pos haccepted]
  have hcandidate : definitionToConfig (definitionRequest (modelDefinition cfg))
      (env.target cfg.id) (some cfg) = some cfg := by
    rw [definitionToConfig, hvalidate]
    exact if_neg (not_not.mpr rfl)
  have hget' : staging.catalog.get? (definitionRequest (modelDefinition cfg)).modelId =
      some cfg := hget
  have hnew' : (definitionRequest (modelDefinition cfg)).modelId ∉ staging.seenIds := hnew
  rw [stageDefinition_encode htakes]
  simp only [hvalidate]
  show stageParsed env overwrite staging (definitionRequest (modelDefinition cfg)) = _
  rw [stageParsed]
  dsimp only
  rw [if_neg hnew', hget']
  have hcandidate' : definitionToConfig (definitionRequest (modelDefinition cfg))
      (env.target (definitionRequest (modelDefinition cfg)).modelId) (some cfg) = some cfg :=
    hcandidate
  simp only [hcandidate']
  exact if_pos trivial

theorem stage_current (htakes : TakesDefinitions env) (overwrite : Bool)
    {models : List (Str × Definition)} {staging : Staging}
    (hcurrent : ∀ model ∈ models, Current staging.catalog model)
    (haccepted : ∀ model ∈ models, accepted model.2 = true)
    (hunique : (models.map Prod.fst).Nodup) (hnew : ∀ model ∈ models, model.1 ∉ staging.seenIds) :
    (models.map encode).foldlM (stageDefinition env overwrite) staging =
      .ok (Staging.keeping staging (models.map Prod.fst)) := by
  induction models generalizing staging with
  | nil =>
    show Except.ok staging = .ok { staging with unchanged := staging.unchanged ++ [] }
    rw [List.append_nil]
  | cons model models ih =>
    obtain ⟨hfresh, hunique⟩ := List.nodup_cons.mp hunique
    have hfirst := stageDefinition_current htakes overwrite (hcurrent model List.mem_cons_self)
      (haccepted model List.mem_cons_self) (hnew model List.mem_cons_self)
    have hrest := @ih (Staging.keeping staging [model.1])
      (fun other hmem => hcurrent other (List.mem_cons_of_mem _ hmem))
      (fun other hmem => haccepted other (List.mem_cons_of_mem _ hmem)) hunique
      (fun other hmem hseen => by
        rcases List.mem_cons.mp hseen with hsame | hseen
        · exact hfresh (hsame ▸ List.mem_map_of_mem hmem)
        · exact hnew other (List.mem_cons_of_mem _ hmem) hseen)
    rw [List.map_cons, List.foldlM_cons, hfirst]
    refine hrest.trans (congrArg Except.ok ?_)
    simp only [Staging.keeping, List.map_cons, List.reverse_cons, List.reverse_nil,
      List.nil_append, List.append_assoc, List.singleton_append]

/-- The entry of a definition that is new. -/
def freshConfig (env : ModelLibrary.Environment) (definition : Definition) : ModelConfig where
  id := definition.modelId
  name := definition.name
  description := definition.description
  backend := definition.backend
  modelPath := (env.target definition.modelId).text
  sourceModel := definition.sourceModel
  weightFormat := definition.weightFormat
  recommendedDevice := definition.recommendedDevice
  maxContextLen := definition.maxContextLen
  maxOutputTokens := definition.maxOutputTokens
  trustRemoteCode := definition.trustRemoteCode

/-- The model is new, and its definition passes the request schema. -/
structure Fresh (staging : Staging) (model : Str × Definition) : Prop where
  id : model.2.modelId = model.1
  validates : (definitionRequest model.2).validate = some (definitionRequest model.2)
  unseen : model.1 ∉ staging.seenIds
  absent : staging.catalog.get? model.1 = none

/-- The staging behind a model that is added. -/
def Staging.adding (env : ModelLibrary.Environment) (staging : Staging)
    (model : Str × Definition) : Staging :=
  Staging.add model.1 (freshConfig env model.2)
    { staging with seenIds := model.1 :: staging.seenIds }

theorem stageDefinition_fresh (htakes : TakesDefinitions env) (overwrite : Bool)
    {staging : Staging} {model : Str × Definition} (h : Fresh staging model) :
    stageDefinition env overwrite staging (encode model) =
      .ok (Staging.adding env staging model) := by
  obtain ⟨id, definition⟩ := model
  obtain ⟨hid, hvalidate, hunseen, habsent⟩ := h
  obtain rfl : definition.modelId = id := hid
  have habsent' : staging.catalog.get? (definitionRequest definition).modelId = none := habsent
  have hunseen' : (definitionRequest definition).modelId ∉ staging.seenIds := hunseen
  have hcandidate : definitionToConfig (definitionRequest definition)
      (env.target definition.modelId) none = some (freshConfig env definition) := by
    rw [definitionToConfig, hvalidate]
    rfl
  rw [stageDefinition_encode htakes]
  simp only [hvalidate]
  show stageParsed env overwrite staging (definitionRequest definition) = _
  rw [stageParsed]
  dsimp only
  rw [if_neg hunseen', habsent']
  have hcandidate' : definitionToConfig (definitionRequest definition)
      (env.target (definitionRequest definition).modelId) none =
        some (freshConfig env definition) := hcandidate
  simp only [hcandidate']
  rfl

/-- An import into a catalog that has none of the models. -/
theorem stage_fresh (htakes : TakesDefinitions env) (overwrite : Bool)
    {models : List (Str × Definition)} {staging : Staging}
    (hfresh : ∀ model ∈ models, Fresh staging model) (hunique : (models.map Prod.fst).Nodup) :
    ∃ staged, (models.map encode).foldlM (stageDefinition env overwrite) staging = .ok staged ∧
      staged.added = staging.added ++ models.map Prod.fst ∧ staged.updated = staging.updated ∧
      staged.unchanged = staging.unchanged ∧
      ∀ id cfg, staged.catalog.get? id = some cfg ↔
        staging.catalog.get? id = some cfg ∨
          ∃ definition, (id, definition) ∈ models ∧ cfg = freshConfig env definition := by
  induction models generalizing staging with
  | nil =>
    refine ⟨staging, rfl, (List.append_nil _).symm, rfl, rfl, fun id cfg => ?_⟩
    simp only [List.not_mem_nil, false_and, exists_false, or_false]
  | cons model models ih =>
    obtain ⟨hnew, hunique⟩ := List.nodup_cons.mp hunique
    have hmodel := hfresh model List.mem_cons_self
    have hfirst := stageDefinition_fresh htakes overwrite hmodel
    have hnext : ∀ other ∈ models, Fresh (Staging.adding env staging model) other := by
      intro other hmem
      have hother := hfresh other (List.mem_cons_of_mem _ hmem)
      have hne : other.1 ≠ model.1 := fun h => hnew (h ▸ List.mem_map_of_mem hmem)
      refine ⟨hother.id, hother.validates, ?_, ?_⟩
      · intro hseen
        rcases List.mem_cons.mp hseen with hsame | hseen
        · exact hne hsame
        · exact hother.unseen hseen
      · show (staging.catalog.set model.1 (freshConfig env model.2)).get? other.1 = none
        rw [Dict.get?_set_of_ne _ _ hne]
        exact hother.absent
    obtain ⟨staged, hstaged, hadded, hupdated, hunchanged, hcatalog⟩ := ih hnext hunique
    refine ⟨staged, ?_, ?_, hupdated, hunchanged, fun id cfg => ?_⟩
    · rw [List.map_cons, List.foldlM_cons, hfirst]
      exact hstaged
    · rw [hadded]
      show staging.added ++ [model.1] ++ models.map Prod.fst = _
      rw [List.append_assoc]
      rfl
    · rw [hcatalog]
      show (staging.catalog.set model.1 (freshConfig env model.2)).get? id = some cfg ∨ _ ↔ _
      by_cases hid : id = model.1
      · subst hid
        rw [Dict.get?_set, if_pos rfl, hmodel.absent]
        constructor
        · rintro (hcfg | ⟨definition, hmem, hcfg⟩)
          · exact .inr ⟨model.2, List.mem_cons_self, (Option.some.inj hcfg).symm⟩
          · exact absurd (List.mem_map_of_mem hmem) hnew
        · rintro (hcfg | ⟨definition, hmem, hcfg⟩)
          · cases hcfg
          · rcases List.mem_cons.mp hmem with hsame | hmem
            · rw [hcfg, ← hsame]
              exact .inl rfl
            · exact absurd (List.mem_map_of_mem hmem) hnew
      · rw [Dict.get?_set_of_ne _ _ hid]
        apply or_congr_right
        apply exists_congr
        intro definition
        apply and_congr_left'
        rw [List.mem_cons]
        exact (or_iff_right fun h => hid (congrArg Prod.fst h)).symm

/-! ### Sorted exports -/

theorem mem_sortedIds {ids : List Str} : id ∈ sortedIds ids ↔ id ∈ ids := by
  rw [sortedIds, List.mem_mergeSort, List.mem_dedup]

theorem sortedIds_pairwise (ids : List Str) : (sortedIds ids).Pairwise (· < ·) := by
  have hsorted : (sortedIds ids).Pairwise (· ≤ ·) := List.pairwise_mergeSort' (· ≤ ·) ids.dedup
  have hunique : (sortedIds ids).Nodup :=
    (List.mergeSort_perm ids.dedup _).nodup_iff.mpr (List.nodup_dedup ids)
  exact (hsorted.and hunique).imp fun h => lt_of_le_of_ne h.1 h.2

theorem mem_exportedModels {ids : List Str} {model : Str × Definition} :
    model ∈ exportedModels catalog ids ↔
      model.1 ∈ ids ∧ ∃ cfg, catalog.get? model.1 = some cfg ∧ model.2 = modelDefinition cfg := by
  obtain ⟨id, definition⟩ := model
  rw [exportedModels, List.mem_filterMap]
  constructor
  · rintro ⟨other, hmem, hmodel⟩
    obtain ⟨cfg, hget, hsame⟩ := Option.map_eq_some_iff.mp hmodel
    obtain ⟨rfl, rfl⟩ := Prod.mk.inj hsame
    exact ⟨mem_sortedIds.mp hmem, cfg, hget, rfl⟩
  · rintro ⟨hmem, cfg, hget, hdefinition⟩
    refine ⟨id, mem_sortedIds.mpr hmem, Option.map_eq_some_iff.mpr ⟨cfg, hget, ?_⟩⟩
    exact congrArg (Prod.mk id) hdefinition.symm

theorem exportedModels_pairwise (catalog : Catalog) (ids : List Str) :
    (exportedModels catalog ids).Pairwise fun a b => a.1 < b.1 := by
  rw [exportedModels, List.pairwise_filterMap]
  apply (sortedIds_pairwise ids).imp
  intro a b hlt model hmodel model' hmodel'
  obtain ⟨cfg, -, rfl⟩ := Option.map_eq_some_iff.mp hmodel
  obtain ⟨cfg', -, rfl⟩ := Option.map_eq_some_iff.mp hmodel'
  exact hlt

theorem exportedModels_nodup (catalog : Catalog) (ids : List Str) :
    ((exportedModels catalog ids).map Prod.fst).Nodup :=
  List.pairwise_map.mpr ((exportedModels_pairwise catalog ids).imp fun h => ne_of_lt h)

/-- Sorted exports with the same models. -/
theorem exportedModels_eq {catalog' : Catalog} {ids ids' : List Str}
    (h : ∀ model, model ∈ exportedModels catalog ids ↔ model ∈ exportedModels catalog' ids') :
    exportedModels catalog ids = exportedModels catalog' ids' := by
  have hirreflexive : Std.Irrefl fun a b : Str × Definition => a.1 < b.1 :=
    ⟨fun a => lt_irrefl a.1⟩
  have hantisymmetric : Std.Antisymm fun a b : Str × Definition => a.1 < b.1 :=
    ⟨fun a b hab hba => absurd hba (lt_asymm hab)⟩
  exact (exportedModels_pairwise catalog ids).eq_of_mem_iff
    (exportedModels_pairwise catalog' ids') h

/-! ### The index of an import -/

theorem mapM_forall {α β : Type} {f : α → Option β} {P : β → Prop}
    (hf : ∀ a b, f a = some b → P b) {as : List α} {bs : List β} (h : as.mapM f = some bs) :
    ∀ b ∈ bs, P b := by
  induction as generalizing bs with
  | nil =>
    obtain rfl := Option.some.inj h
    exact fun _ hmem => absurd hmem List.not_mem_nil
  | cons a as ih =>
    rw [List.mapM_cons] at h
    obtain ⟨b, hb, h⟩ := Option.bind_eq_some_iff.mp h
    obtain ⟨rest, hrest, h⟩ := Option.bind_eq_some_iff.mp h
    obtain rfl := Option.some.inj h
    rintro c (_ | ⟨_, hmem⟩)
    · exact hf a b hb
    · exact ih hrest c hmem

theorem mapM_map_some {α β : Type} {f : α → Option β} {g : β → α} {bs : List β}
    (h : ∀ b ∈ bs, f (g b) = some b) : (bs.map g).mapM f = some bs := by
  induction bs with
  | nil => rfl
  | cons b bs ih =>
    rw [List.map_cons, List.mapM_cons, h b List.mem_cons_self,
      ih fun c hmem => h c (List.mem_cons_of_mem _ hmem)]
    rfl

theorem readUserIds_valid {userFile : UserFile} {ids : List Str}
    (h : readUserIds userFile = some ids) : ∀ id ∈ ids, isModelId id = true := by
  cases userFile with
  | missing =>
    obtain rfl := Option.some.inj h
    exact fun _ hmem => absurd hmem List.not_mem_nil
  | damaged => cases h
  | index document =>
    rw [readUserIds.eq_def] at h
    split at h
    · next hfile => cases hfile
    · next hfile => cases hfile
    · split at h
      · next values _ =>
        apply mapM_forall (P := fun id => isModelId id = true) _ h
        intro value id hvalue
        split at hvalue
        · split at hvalue
          · next hid =>
            obtain rfl := Option.some.inj hvalue
            exact hid
          · cases hvalue
        · cases hvalue
      · cases h
    · cases h

/-- The index that is written is read back. -/
theorem readUserIds_userDocument (utcNow : Str) {ids : List Str}
    (h : ∀ id ∈ ids, isModelId id = true) :
    readUserIds (.index (userDocument utcNow ids)) = some (sortedIds ids) := by
  apply mapM_map_some
  intro id hmem
  exact if_pos (h id (mem_sortedIds.mp hmem))

/-! ### Imports without a fault -/

variable {s : Library} {payload : List (Str × JsonValue)} {overwrite : Bool}

theorem importDefinitions_refused {e : LibraryError}
    (hstage : stageImport env payload overwrite s.catalog = .error e) :
    importDefinitions env payload overwrite s = (.error e, s) := by
  rw [importDefinitions, check_bind, hstage]

/-- An import that changes no entry. -/
theorem importDefinitions_kept {staging : Staging} {userIds : List Str}
    (hstage : stageImport env payload overwrite s.catalog = .ok staging)
    (hchanged : staging.changed = []) (hids : readUserIds s.userFile = some userIds)
    (hfault : s.fault = none) :
    importDefinitions env payload overwrite s =
      (.ok staging.report, { s with userFile := .index (userDocument env.utcNow
        (userIds ++ staging.added ++ staging.updated ++ staging.unchanged)) }) := by
  obtain ⟨catalog, file, userFile, directories, fault⟩ := s
  obtain rfl : fault = none := hfault
  rw [importDefinitions, check_bind, hstage]
  dsimp only
  rw [readIndex_bind, hids]
  dsimp only
  rw [get_bind, if_neg (not_not.mpr hchanged)]
  rfl

theorem importDefinitions_committed {staging : Staging} {userIds : List Str}
    (hstage : stageImport env payload overwrite s.catalog = .ok staging)
    (hchanged : staging.changed ≠ []) (hids : readUserIds s.userFile = some userIds)
    (hfault : s.fault = none) :
    importDefinitions env payload overwrite s =
      (.ok staging.report, { s with
        catalog := reread staging.catalog
        file := some (saveCatalog staging.catalog)
        userFile := .index (userDocument env.utcNow
          (userIds ++ staging.added ++ staging.updated ++ staging.unchanged)) }) := by
  obtain ⟨catalog, file, userFile, directories, fault⟩ := s
  obtain rfl : fault = none := hfault
  rw [importDefinitions, check_bind, hstage]
  dsimp only
  rw [readIndex_bind, hids]
  dsimp only
  rw [get_bind, if_pos hchanged]
  rfl

/-! ### Main result -/

/-- The import into the state of the export: every model is reported as unchanged, and so is
every entry. -/
def ImportsUnchanged (env : ModelLibrary.Environment) (payload : List (Str × JsonValue)) (overwrite : Bool)
    (models : List (Str × Definition)) (s : Library) : Prop :=
  ∃ s', importDefinitions env payload overwrite s =
      (.ok { unchanged := models.map Prod.fst }, s') ∧
    s'.catalog = s.catalog ∧ s'.file = s.file

/-- The import into an empty catalog, whose export is the same again. -/
def ImportsAll (payload : List (Str × JsonValue)) (overwrite : Bool)
    (models : List (Str × Definition)) : Prop :=
  ∀ env s, TakesDefinitions env → s.catalog = Dict.empty → s.fault = none →
    (readUserIds s.userFile).isSome → ∃ report s',
      importDefinitions env payload overwrite s = (.ok report, s') ∧
        ∀ manifestIds includeAll, exportDefinitions manifestIds includeAll s' = some models

theorem rawModels_exportPayload (utcNow : Str) (models : List (Str × Definition)) :
    rawModels (exportPayload utcNow models) = models.map encode := rfl

theorem stageImport_exportPayload (utcNow : Str) {models : List (Str × Definition)}
    (hcount : 1 ≤ models.length ∧ models.length ≤ 50) :
    stageImport env (exportPayload utcNow models) overwrite catalog =
      (models.map encode).foldlM (stageDefinition env overwrite) { catalog } := by
  rw [stageImport, rawModels_exportPayload]
  apply if_neg
  rw [List.map_eq_nil_iff, List.length_map, maxImportedDefinitions, not_or]
  refine ⟨List.ne_nil_of_length_pos hcount.1, ?_⟩
  omega

/-- A definition that the request schema refuses. -/
theorem not_importsUnchanged (htakes : TakesDefinitions env) (utcNow : Str)
    {models : List (Str × Definition)} (hcount : 1 ≤ models.length ∧ models.length ≤ 50)
    {model : Str × Definition} (hmem : model ∈ models)
    (hrefused : (definitionRequest model.2).validate = none) :
    ¬ ImportsUnchanged env (exportPayload utcNow models) overwrite models s := by
  have hstep : ∀ staging, stageDefinition env overwrite staging (encode model) =
      .error .invalidDefinition := by
    intro staging
    rw [stageDefinition_encode htakes, hrefused]
  obtain ⟨e, herror⟩ := foldlM_error hstep (List.mem_map_of_mem hmem) { catalog := s.catalog }
  rw [← stageImport_exportPayload utcNow hcount] at herror
  rintro ⟨s', himport, -⟩
  rw [importDefinitions_refused herror] at himport
  cases himport

/-- The entry of an imported definition, read back. -/
theorem reread_fresh (hcanonical : cfg.Canonical) :
    ∃ cfg', coerceEntry cfg.id (saveEntry (freshConfig env (modelDefinition cfg))) = some cfg' ∧
      modelDefinition cfg' = modelDefinition cfg := by
  have hstripped : ∀ {cfg : ModelConfig}, cfg.Canonical →
      (modelDefinition cfg).stripped = modelDefinition cfg := by
    intro cfg h
    show Definition.mk _ _ _ _ _ _ _ _ _ _ = Definition.mk _ _ _ _ _ _ _ _ _ _
    simp only [modelDefinition, h.name.1, h.description, h.sourceModel]
  have hfresh : modelDefinition (freshConfig env (modelDefinition cfg)) = modelDefinition cfg := rfl
  have hwellformed : Wellformed cfg.id (freshConfig env (modelDefinition cfg)) :=
    ⟨hcanonical.id, hcanonical.device, hcanonical.context, hcanonical.output, hcanonical.budget⟩
  have hname : strip isSpace (freshConfig env (modelDefinition cfg)).name ≠ [] := by
    show strip isSpace cfg.name ≠ []
    rw [hcanonical.name.1]
    exact hcanonical.name.2
  obtain ⟨cfg', hread⟩ := Option.isSome_iff_exists.mp ((readBack_isSome_iff hwellformed).mpr
    ⟨hname, strip_resolvedPath (env.target cfg.id)⟩)
  refine ⟨cfg', hread, ?_⟩
  have hback := readBack_definition hread rfl hcanonical.device
  rw [hstripped (coerceEntry_canonical hread).2, hfresh, hstripped hcanonical] at hback
  exact hback

/-- The models of an export of a loaded catalog. -/
structure Exported (catalog : Catalog) (models : List (Str × Definition)) : Prop where
  current : ∀ model ∈ models, Current catalog model
  unique : (models.map Prod.fst).Nodup

theorem exported (hcatalog : CanonicalCatalog catalog) (ids : List Str) :
    Exported catalog (exportedModels catalog ids) where
  current := by
    intro model hmem
    obtain ⟨-, cfg, hget, hdefinition⟩ := mem_exportedModels.mp hmem
    obtain ⟨hid, hcanonical⟩ := hcatalog _ (Dict.mem_of_get? hget)
    exact ⟨cfg, hget, hid, hcanonical, hdefinition⟩
  unique := exportedModels_nodup catalog ids

theorem Exported.importsUnchanged (htakes : TakesDefinitions env) (utcNow : Str)
    {models : List (Str × Definition)} (hcount : 1 ≤ models.length ∧ models.length ≤ 50)
    (h : Exported s.catalog models) (haccepted : ∀ model ∈ models, accepted model.2 = true)
    {userIds : List Str} (hids : readUserIds s.userFile = some userIds) (hfault : s.fault = none) :
    ImportsUnchanged env (exportPayload utcNow models) overwrite models s := by
  have hcurrent : ∀ model ∈ models, Current ({ catalog := s.catalog } : Staging).catalog model :=
    h.current
  have hnew : ∀ model ∈ models, model.1 ∉ ({ catalog := s.catalog } : Staging).seenIds :=
    fun _ _ => List.not_mem_nil
  have hstage := stage_current htakes overwrite hcurrent haccepted h.unique hnew
  rw [← stageImport_exportPayload utcNow hcount] at hstage
  have himport := importDefinitions_kept hstage rfl hids hfault
  exact ⟨_, himport, rfl, rfl⟩

theorem Exported.importsAll (utcNow : Str) {ids : List Str}
    (hcount : 1 ≤ (exportedModels catalog ids).length ∧ (exportedModels catalog ids).length ≤ 50)
    (h : Exported catalog (exportedModels catalog ids))
    (haccepted : ∀ model ∈ exportedModels catalog ids, accepted model.2 = true) :
    ImportsAll (exportPayload utcNow (exportedModels catalog ids)) overwrite
      (exportedModels catalog ids) := by
  intro env s htakes hempty hfault hreadable
  obtain ⟨userIds, hids⟩ := Option.isSome_iff_exists.mp hreadable
  have hfresh : ∀ model ∈ exportedModels catalog ids,
      Fresh { catalog := s.catalog } model := by
    intro model hmem
    obtain ⟨cfg, -, hid, hcanonical, hdefinition⟩ := (h.current model hmem).entry
    refine ⟨?_, ?_, List.not_mem_nil, ?_⟩
    · rw [hdefinition]
      exact hid
    · have hmodel := haccepted model hmem
      rw [hdefinition] at hmodel ⊢
      rw [validate_definition hcanonical, if_pos hmodel]
    · rw [hempty]
      rfl
  obtain ⟨staged, hstage, hadded, hupdated, hunchanged, hget⟩ :=
    stage_fresh htakes overwrite hfresh h.unique
  rw [← stageImport_exportPayload utcNow hcount] at hstage
  have hchanged : staged.changed ≠ [] := by
    rw [Staging.changed, hadded, hupdated]
    intro hnil
    have hmap : (exportedModels catalog ids).map Prod.fst = [] := (List.append_eq_nil_iff.mp hnil).1
    rw [List.map_eq_nil_iff.mp hmap] at hcount
    exact absurd hcount.1 (by decide)
  refine ⟨_, _, importDefinitions_committed hstage hchanged hids hfault, ?_⟩
  intro manifestIds includeAll
  have hindex : ∀ id ∈ userIds ++ staged.added ++ staged.updated ++ staged.unchanged,
      isModelId id = true := by
    rw [hadded, hupdated, hunchanged]
    intro id hmem
    simp only [List.append_nil, List.nil_append, List.mem_append, List.mem_map] at hmem
    rcases hmem with hmem | ⟨model, hmem, rfl⟩
    · exact readUserIds_valid hids id hmem
    · obtain ⟨cfg, -, hid, hcanonical, -⟩ := (h.current model hmem).entry
      rw [← hid]
      exact hcanonical.id
  rw [exportDefinitions]
  show (readUserIds (.index (userDocument env.utcNow _))).map _ = _
  rw [readUserIds_userDocument _ hindex]
  apply congrArg some
  apply exportedModels_eq
  rintro ⟨id, definition⟩
  rw [mem_exportedModels]
  show (id ∈ _ ∧ ∃ cfg, (reread staged.catalog).get? id = some cfg ∧ _) ↔ _
  rw [get?_reread]
  constructor
  · rintro ⟨-, cfg', hread, hdefinition⟩
    obtain ⟨cfg, hcfg, hread⟩ := Option.bind_eq_some_iff.mp hread
    rcases (hget id cfg).mp hcfg with hbefore | ⟨original, hmem, rfl⟩
    · rw [hempty] at hbefore
      cases hbefore
    · obtain ⟨cfg, -, hid, hcanonical, horiginal⟩ := (h.current _ hmem).entry
      obtain rfl : cfg.id = id := hid
      obtain rfl : original = modelDefinition cfg := horiginal
      obtain ⟨cfg'', hback, hsame⟩ := @reread_fresh env cfg hcanonical
      obtain rfl : cfg'' = cfg' := Option.some.inj (hback.symm.trans hread)
      obtain rfl : definition = modelDefinition cfg'' := hdefinition
      rw [hsame]
      exact hmem
  · intro hmem
    obtain ⟨cfg, -, hid, hcanonical, hdefinition⟩ := (h.current _ hmem).entry
    obtain rfl : cfg.id = id := hid
    obtain rfl : definition = modelDefinition cfg := hdefinition
    obtain ⟨cfg', hback, hsame⟩ := @reread_fresh env cfg hcanonical
    refine ⟨?_, cfg', Option.bind_eq_some_iff.mpr
      ⟨_, (hget cfg.id _).mpr (.inr ⟨_, hmem, rfl⟩), hback⟩, hsame.symm⟩
    apply List.mem_append_left
    apply List.mem_append_right
    apply mem_sortedIds.mpr
    rw [hadded]
    simp only [List.nil_append, List.mem_append, List.mem_map]
    exact .inl (.inl (.inr ⟨_, hmem, rfl⟩))

/-- **Export and import.**  Both imports give back what was exported exactly if every exported
definition has a name of at most 160 characters, a source of 1 to 240 and a device of at most
64. -/
theorem import_export_iff (htakes : TakesDefinitions env) {file : Option CatalogFile}
    (hcatalog : s.catalog = loadCatalog file) (hfault : s.fault = none) {manifestIds : List Str}
    {includeAll : Bool} {models : List (Str × Definition)}
    (hexport : exportDefinitions manifestIds includeAll s = some models)
    (hcount : 1 ≤ models.length ∧ models.length ≤ 50) (utcNow : Str) (overwrite : Bool) :
    (ImportsUnchanged env (exportPayload utcNow models) overwrite models s ∧
        ImportsAll (exportPayload utcNow models) overwrite models) ↔
      ∀ model ∈ models, accepted model.2 = true := by
  obtain ⟨userIds, hids, rfl⟩ := Option.map_eq_some_iff.mp hexport
  have hcanonical : CanonicalCatalog s.catalog := by
    rw [hcatalog]
    exact canonicalCatalog_loadCatalog file
  have h := exported hcanonical
    (manifestIds ++ userIds ++ if includeAll then s.catalog.items.map Prod.fst else [])
  constructor
  · rintro ⟨hunchanged, -⟩ model hmem
    by_contra hrefused
    refine not_importsUnchanged htakes utcNow hcount hmem ?_ hunchanged
    obtain ⟨cfg, -, -, hcfg, hdefinition⟩ := (h.current model hmem).entry
    rw [hdefinition] at hrefused ⊢
    rw [validate_definition hcfg, if_neg hrefused]
  · intro haccepted
    exact ⟨h.importsUnchanged htakes utcNow hcount haccepted hids hfault,
      h.importsAll utcNow hcount haccepted⟩

/-! ### An entry without a source -/

def textOf : Option JsonValue → Option Str
  | some (.str text) => some text
  | _ => none

def numberOf : Option JsonValue → Option Int
  | some (.int n) => some n
  | _ => none

/-- Every field of a definition, with its declared type. -/
def coerceTyped (raw : List (Str × JsonValue)) : Option RegisterRequest := do
  let modelId ← textOf (raw.lookup "model_id".toList)
  let name ← textOf (raw.lookup "name".toList)
  let sourceModel ← textOf (raw.lookup "source_model".toList)
  let backend ← (textOf (raw.lookup "backend".toList)).bind Backend.ofText
  let weightFormat ← (textOf (raw.lookup "weight_format".toList)).bind WeightFormat.ofText
  let recommendedDevice ← textOf (raw.lookup "recommended_device".toList)
  let maxContextLen ← numberOf (raw.lookup "max_context_len".toList)
  let maxOutputTokens ← numberOf (raw.lookup "max_output_tokens".toList)
  let trustRemoteCode ← readTrustRemoteCode raw
  some
    { modelId, name, sourceModel, backend, weightFormat, recommendedDevice, maxContextLen,
      maxOutputTokens, description := textOf (raw.lookup "description".toList), trustRemoteCode }

def typedEnvironment : ModelLibrary.Environment := { quietEnvironment with coerce := coerceTyped }

theorem takesDefinitions_typed : TakesDefinitions typedEnvironment := by
  rintro ⟨modelId, name, description, source, backend, format, device, context, output, trust⟩
  cases backend <;> cases format <;> rfl

/-- A catalog file with one entry, which says where its model comes from or does not. -/
def oneEntry (fields : List (Str × JsonValue)) : CatalogFile :=
  ⟨[("a".toList, .obj fields)], List.nodup_singleton _⟩

def oneEntryLibrary (fields : List (Str × JsonValue)) : Library where
  catalog := loadCatalog (some (oneEntry fields))
  file := some (oneEntry fields)
  userFile := .missing
  directories := []

/-- The definition of the only entry. -/
def oneDefinition (source : Str) : Definition where
  modelId := "a".toList
  name := "a".toList
  description := []
  sourceModel := source
  backend := .genai
  weightFormat := .int4
  recommendedDevice := "NPU".toList
  maxContextLen := 2048
  maxOutputTokens := 512
  trustRemoteCode := false

theorem exportDefinitions_one {fields : List (Str × JsonValue)} {source : Str}
    (hids : (oneEntryLibrary fields).catalog.items.map Prod.fst = ["a".toList])
    (h : ((oneEntryLibrary fields).catalog.get? "a".toList).map modelDefinition =
      some (oneDefinition source)) :
    exportDefinitions [] true (oneEntryLibrary fields) =
      some [("a".toList, oneDefinition source)] := by
  show some (exportedModels (oneEntryLibrary fields).catalog
    ((oneEntryLibrary fields).catalog.items.map Prod.fst)) = _
  rw [hids]
  have hsorted : sortedIds ["a".toList] = ["a".toList] := List.mergeSort_singleton _
  obtain ⟨cfg, hget, hdefinition⟩ := Option.map_eq_some_iff.mp h
  rw [exportedModels, hsorted, List.filterMap_cons, hget]
  show some [("a".toList, modelDefinition cfg)] = _
  rw [hdefinition]

theorem import_export_iff_one :
    (ImportsUnchanged typedEnvironment
        (exportPayload "now".toList [("a".toList, oneDefinition "org/a".toList)]) false
        [("a".toList, oneDefinition "org/a".toList)]
        (oneEntryLibrary [("source_model".toList, .str "org/a".toList)]) ∧
      ImportsAll (exportPayload "now".toList [("a".toList, oneDefinition "org/a".toList)]) false
        [("a".toList, oneDefinition "org/a".toList)]) ↔
      ∀ model ∈ [("a".toList, oneDefinition "org/a".toList)], accepted model.2 = true := by
  have hcatalog : (oneEntryLibrary [("source_model".toList, .str "org/a".toList)]).catalog =
      loadCatalog (some (oneEntry [("source_model".toList, .str "org/a".toList)])) := rfl
  exact import_export_iff takesDefinitions_typed hcatalog rfl (exportDefinitions_one rfl rfl)
    ⟨Nat.le_refl 1, by decide⟩ "now".toList false

/-- An entry without a source is loaded and exported, and the import of the export raises. -/
theorem withoutSource_refused :
    ∃ models, exportDefinitions [] true (oneEntryLibrary []) = some models ∧
      models.length = 1 ∧
      importDefinitions typedEnvironment (exportPayload "now".toList models) false
          (oneEntryLibrary []) = (.error .invalidDefinition, oneEntryLibrary []) ∧
      ¬ ImportsUnchanged typedEnvironment (exportPayload "now".toList models) false models
          (oneEntryLibrary []) := by
  have himport : importDefinitions typedEnvironment
      (exportPayload "now".toList [("a".toList, oneDefinition [])]) false (oneEntryLibrary []) =
        (.error .invalidDefinition, oneEntryLibrary []) := rfl
  refine ⟨[("a".toList, oneDefinition [])], exportDefinitions_one rfl rfl, rfl, himport, ?_⟩
  rintro ⟨s', hsame, -⟩
  rw [himport] at hsame
  cases hsame

end InferBridge.DefinitionExport
