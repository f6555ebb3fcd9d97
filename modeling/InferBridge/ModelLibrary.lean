/-
InferBridge/ModelLibrary.lean

The model library service (app/model_library_service.py): importing
definitions, installing the official ones, adopting a directory and
importing a converted model.

A call works on the catalog in memory, the catalog file, the user index and
the directories below the models directory.  Each of its persistence steps
may raise without effect; `fault` counts the steps up to the one that does.
A call holds the catalog lock, so it is one step of the service.  What the
file system and pydantic's type coercion answer is a parameter.
-/
import InferBridge.CatalogPersistence
import InferBridge.Lib.Returns

namespace InferBridge.ModelLibrary

open Text

/-! ### Definitions -/

/-- `model_definition` -/
structure Definition where
  modelId : Str
  name : Str
  description : Str
  sourceModel : Str
  backend : Backend
  weightFormat : WeightFormat
  recommendedDevice : Str
  maxContextLen : Int
  maxOutputTokens : Int
  trustRemoteCode : Bool
deriving DecidableEq

def modelDefinition (cfg : ModelConfig) : Definition where
  modelId := cfg.id
  name := cfg.name
  description := cfg.description
  sourceModel := cfg.sourceModel
  backend := cfg.backend
  weightFormat := cfg.weightFormat
  recommendedDevice := cfg.recommendedDevice
  maxContextLen := cfg.maxContextLen
  maxOutputTokens := cfg.maxOutputTokens
  trustRemoteCode := cfg.trustRemoteCode

/-- The definition that a validated request asks for. -/
def requestedDefinition (request : RegisterRequest) : Definition where
  modelId := request.modelId
  name := request.name
  description := request.description.getD []
  sourceModel := request.sourceModel
  backend := request.backend
  weightFormat := request.weightFormat
  recommendedDevice := request.recommendedDevice
  maxContextLen := request.maxContextLen
  maxOutputTokens := request.maxOutputTokens
  trustRemoteCode := request.trustRemoteCode

/-- A definition without the white space around its texts. -/
def Definition.stripped (definition : Definition) : Definition :=
  { definition with
    name := strip isSpace definition.name
    description := strip isSpace definition.description
    sourceModel := strip isSpace definition.sourceModel }

/-- `Path.resolve`: an absolute path has a separator. -/
structure ResolvedPath where
  text : Str
  absolute : ∃ c ∈ text, isSpace c = false

/-- `definition_to_config`; `none` is a `ValueError`. -/
def definitionToConfig (definition : RegisterRequest) (modelPath : ResolvedPath)
    (existing : Option ModelConfig) : Option ModelConfig :=
  definition.validate.bind fun request =>
    match existing with
    | some cfg =>
      if cfg.id ≠ request.modelId then none
      else
        some
          { cfg with
            name := request.name
            description := request.description.getD []
            backend := request.backend
            sourceModel := request.sourceModel
            weightFormat := request.weightFormat
            recommendedDevice := request.recommendedDevice
            maxContextLen := request.maxContextLen
            maxOutputTokens := request.maxOutputTokens
            trustRemoteCode := request.trustRemoteCode }
    | none =>
      some
        { id := request.modelId
          name := request.name
          description := request.description.getD []
          backend := request.backend
          modelPath := modelPath.text
          sourceModel := request.sourceModel
          weightFormat := request.weightFormat
          recommendedDevice := request.recommendedDevice
          maxContextLen := request.maxContextLen
          maxOutputTokens := request.maxOutputTokens
          trustRemoteCode := request.trustRemoteCode }

/-! ### The service -/

inductive PersistenceStep where
  | saveCatalog
  | writeUserIds
  | reloadCatalog
  | rename
  | recordMetadata
deriving DecidableEq, Repr

inductive LibraryError where
  | definitionCount
  | notAnObject (key : Str)
  | invalidDefinition
  | duplicateId (modelId : Str)
  | activeModel (modelId : Str)
  | differentDefinition (modelId : Str)
  | userIndex
  | directoryName
  | reparsePoint
  | escapedDirectory
  | notAModelDirectory
  | linkInside
  | registeredId (modelId : Str)
  | registeredDirectory
  | replacementDisabled
  | relativePath
  | existingDirectory (modelId : Str)
  | diskSpace
  | copy
  | unreadableMarker
  | failed (step : PersistenceStep)
deriving DecidableEq

/-- The file `model-library-user.json`; `damaged` is unreadable or not JSON. -/
inductive UserFile where
  | missing
  | damaged
  | index (document : JsonValue)

structure Library where
  /-- `manager.catalog` -/
  catalog : Catalog
  /-- `settings.models_file` -/
  file : Option CatalogFile
  userFile : UserFile
  /-- the names of the directories below `settings.models_dir` -/
  directories : List Str
  /-- how many persistence steps succeed before one raises; `none` if all do -/
  fault : Option Nat := none

/-- What `adopt_managed` finds out about a directory. -/
structure DirectoryFacts where
  reparsePoint : Bool
  path : ResolvedPath
  name : Str
  inModelsDir : Bool
  isModel : Bool
  /-- `directory_size_bytes`; `none` is an error -/
  sizeBytes : Option Nat
  /-- whether the conversion marker, if there is one, is text that can be decoded -/
  markerReadable : Bool

/-- What `import_converted` finds out about its source, and how the copying goes. -/
structure SourceFacts where
  absolute : Bool
  reparsePoint : Bool
  name : Str
  isModel : Bool
  sizeBytes : Option Nat
  /-- the target is not a direct child of the models directory -/
  targetEscapes : Bool
  isTarget : Bool
  copies : Bool
  copySizeBytes : Option Nat
  copyIsModel : Bool

/-- What surrounds a call. -/
structure Environment where
  /-- the types and defaults of `ModelRegisterRequest`, without its constraints -/
  coerce : List (Str × JsonValue) → Option RegisterRequest
  /-- `(models_dir / model_id).resolve()` -/
  target : Str → ResolvedPath
  /-- `_is_model_active` -/
  active : Str → Bool
  utcNow : Str
  /-- `secrets.token_hex` -/
  token : Str
  managed : Str → DirectoryFacts
  source : Str → SourceFacts
  freeBytes : Nat
  /-- the resolved directory of an entry; `none` is an `OSError` -/
  resolveEntry : ModelConfig → Option Str

structure Report where
  added : List Str := []
  updated : List Str := []
  unchanged : List Str := []
  conflicts : List Str := []
  registered : Option Str := none

/-- The models that a report speaks for. -/
def Report.models (report : Report) : List Str :=
  report.added ++ report.updated ++ report.unchanged ++ report.registered.toList

abbrev LibraryM := ExceptT LibraryError (StateM Library)

/-! ### Persistence -/

/-- A check, made before anything is written. -/
def check {α : Type} (test : Library → Except LibraryError α) : LibraryM α := fun s => (test s, s)

def change (effect : Library → Library) : LibraryM Unit := fun s => (.ok (), effect s)

/-- A persistence step, which may be the one that raises. -/
def attempt (step : PersistenceStep) (effect : Library → Library) : LibraryM Unit := fun s =>
  match s.fault with
  | none => (.ok (), effect s)
  | some 0 => (.error (.failed step), { s with fault := none })
  | some (n + 1) => (.ok (), effect { s with fault := some n })

/-- `try … except Exception: …; raise` -/
def undoing {α : Type} (body : LibraryM α) (undo : LibraryM Unit) : LibraryM α :=
  tryCatch body fun e => undo >>= fun _ => throw e

/-- `try … except: …` around a step -/
def recovering (body recover : LibraryM Unit) : LibraryM Unit := tryCatch body fun _ => recover

def saveStep (catalog : Catalog) : LibraryM Unit :=
  attempt .saveCatalog fun s => { s with file := some (saveCatalog catalog) }

/-- `reload_catalog` -/
def reloadStep : LibraryM Unit :=
  attempt .reloadCatalog fun s => { s with catalog := loadCatalog s.file }

/-- `_read_user_ids`; `none` is a `ValueError`. -/
def readUserIds : UserFile → Option (List Str)
  | .missing => some []
  | .damaged => none
  | .index (.obj fields) =>
    match fields.lookup "model_ids".toList with
    | some (.arr values) =>
      values.mapM fun value =>
        match value with
        | .str id => if isModelId id then some id else none
        | _ => none
    | _ => none
  | .index _ => none

/-- The document that `_write_user_ids` writes; `ids` is a set. -/
def userDocument (now : Str) (ids : List Str) : JsonValue :=
  .obj
    [("schema_version".toList, .int 1),
      ("model_ids".toList, .arr ((ids.dedup.mergeSort fun a b => decide (a ≤ b)).map .str)),
      ("updated_at".toList, .str now)]

def writeUserIds (env : Environment) (ids : List Str) : LibraryM Unit :=
  attempt .writeUserIds fun s => { s with userFile := .index (userDocument env.utcNow ids) }

/-- `_restore_user_file`: the text that was read before, or no file. -/
def restoreUserFile (snapshot : UserFile) : LibraryM Unit :=
  recovering (attempt .writeUserIds fun s => { s with userFile := snapshot }) (pure ())

/-- `_restore_catalog` -/
def restoreCatalog (catalog : Catalog) : LibraryM Unit :=
  recovering
    (do
      saveStep catalog
      reloadStep)
    (change fun s => { s with catalog })

/-- What every handler does with the state that was captured. -/
def restore (snapshot : UserFile) (original : Catalog) : LibraryM Unit := do
  restoreUserFile snapshot
  restoreCatalog original

def readIndex : LibraryM (List Str) :=
  check fun s =>
    match readUserIds s.userFile with
    | none => .error .userIndex
    | some ids => .ok ids

/-! ### Staging -/

/-- The staged catalog and the lists of the report. -/
structure Staging where
  catalog : Catalog
  seenIds : List Str := []
  added : List Str := []
  updated : List Str := []
  unchanged : List Str := []
  conflicts : List Str := []

/-- The models that the staged catalog adds or changes. -/
def Staging.changed (staging : Staging) : List Str := staging.added ++ staging.updated

def Staging.report (staging : Staging) : Report where
  added := staging.added
  updated := staging.updated
  unchanged := staging.unchanged
  conflicts := staging.conflicts

def Staging.add (modelId : Str) (cfg : ModelConfig) (staging : Staging) : Staging :=
  { staging with
    catalog := staging.catalog.set modelId cfg, added := staging.added ++ [modelId] }

def Staging.update (modelId : Str) (cfg : ModelConfig) (staging : Staging) : Staging :=
  { staging with
    catalog := staging.catalog.set modelId cfg, updated := staging.updated ++ [modelId] }

/-- `definition.setdefault("model_id", key)` -/
def withModelId (key : Str) (raw : List (Str × JsonValue)) : List (Str × JsonValue) :=
  if (raw.lookup "model_id".toList).isSome then raw
  else raw ++ [("model_id".toList, .str key)]

/-- `ModelRegisterRequest.model_validate` of an imported definition. -/
def parseDefinition (env : Environment) (key : Str) (raw : List (Str × JsonValue)) :
    Option RegisterRequest :=
  (env.coerce (withModelId key raw)).bind RegisterRequest.validate

/-- One definition of `_import_definitions_locked`. -/
def stageParsed (env : Environment) (overwrite : Bool) (staging : Staging)
    (parsed : RegisterRequest) : Except LibraryError Staging :=
  let id := parsed.modelId
  if id ∈ staging.seenIds then .error (.duplicateId id)
  else
    let staging := { staging with seenIds := id :: staging.seenIds }
    let existing := staging.catalog.get? id
    match definitionToConfig parsed (env.target id) existing with
    | none => .error .invalidDefinition
    | some candidate =>
      match existing with
      | none => .ok (staging.add id candidate)
      | some cfg =>
        if modelDefinition cfg = modelDefinition candidate then
          .ok { staging with unchanged := staging.unchanged ++ [id] }
        else if env.active id then .error (.activeModel id)
        else if overwrite then .ok (staging.update id candidate)
        else .error (.differentDefinition id)

def stageDefinition (env : Environment) (overwrite : Bool) (staging : Staging) :
    Str × JsonValue → Except LibraryError Staging
  | (key, .obj raw) =>
    match parseDefinition env key raw with
    | none => .error .invalidDefinition
    | some parsed => stageParsed env overwrite staging parsed
  | (key, _) => .error (.notAnObject key)

def maxImportedDefinitions : Nat := 50

/-- `raw_models` -/
def rawModels (payload : List (Str × JsonValue)) : List (Str × JsonValue) :=
  match payload.lookup "models".toList with
  | some (.obj models) => models
  | _ => payload

def stageImport (env : Environment) (payload : List (Str × JsonValue)) (overwrite : Bool)
    (catalog : Catalog) : Except LibraryError Staging :=
  let models := rawModels payload
  if models = [] ∨ maxImportedDefinitions < models.length then .error .definitionCount
  else models.foldlM (stageDefinition env overwrite) { catalog }

/-- A validated manifest: every definition stands under its identifier. -/
structure Manifest where
  catalog : Dict Str RegisterRequest
  ids : ∀ item ∈ catalog.items, item.2.modelId = item.1

/-- One definition of `_apply_official_definitions_locked`. -/
def stageOfficialDefinition (env : Environment) (userIds : List Str) (staging : Staging)
    (item : Str × RegisterRequest) : Except LibraryError Staging :=
  let id := item.1
  let definition := { item.2 with trustRemoteCode := false }
  let existing := staging.catalog.get? id
  match definitionToConfig definition (env.target id) existing with
  | none => .error .invalidDefinition
  | some cfg =>
    match existing with
    | none => .ok (staging.add id cfg)
    | some old =>
      if modelDefinition old = modelDefinition cfg then .ok staging
      else if env.active id ∨ id ∈ userIds ∨
          (old.sourceModel ≠ [] ∧ old.sourceModel ≠ definition.sourceModel) then
        .ok { staging with conflicts := staging.conflicts ++ [id] }
      else .ok (staging.update id cfg)

def stageOfficial (env : Environment) (manifest : Manifest) (userIds : List Str)
    (catalog : Catalog) : Except LibraryError Staging :=
  manifest.catalog.items.foldlM (stageOfficialDefinition env userIds) { catalog }

/-! ### Import of definitions -/

/-- `_import_definitions_locked` -/
def importDefinitions (env : Environment) (payload : List (Str × JsonValue)) (overwrite : Bool) :
    LibraryM Report := do
  let staging ← check fun s => stageImport env payload overwrite s.catalog
  let previous ← readIndex
  let s ← get
  let userIds := previous ++ staging.added ++ staging.updated ++ staging.unchanged
  if staging.changed ≠ [] then
    undoing
      (do
        saveStep staging.catalog
        writeUserIds env userIds
        reloadStep)
      (restore s.userFile s.catalog)
  else writeUserIds env userIds
  return staging.report

/-- `_apply_official_definitions_locked` -/
def applyOfficialDefinitions (env : Environment) (manifest : Manifest) : LibraryM Report := do
  let userIds ← readIndex
  let staging ← check fun s => stageOfficial env manifest userIds s.catalog
  let s ← get
  if staging.changed ≠ [] then
    undoing
      (do
        saveStep staging.catalog
        reloadStep)
      (restoreCatalog s.catalog)
  return staging.report

/-! ### Adoption and import of a directory -/

/-- What the two requests about a directory have in common. -/
structure LocalModel where
  modelId : Str
  name : Str
  sourceModel : Str := []
  description : Str
  backend : Backend := .genai
  weightFormat : WeightFormat := .fp16
  recommendedDevice : Str := "CPU".toList
  maxContextLen : Int := 2048
  maxOutputTokens : Int := 512

/-- `ManagedModelAdoptRequest` -/
structure AdoptRequest extends LocalModel where
  directoryName : Str
  description := "Adopted pre-converted OpenVINO model.".toList

/-- `ConvertedModelImportRequest` -/
structure ConvertedRequest extends LocalModel where
  sourcePath : Str
  overwrite : Bool := false
  description := "Imported converted OpenVINO model.".toList

/-- `definition`, of a directory with this name -/
def LocalModel.definition (model : LocalModel) (directory : Str) : RegisterRequest where
  modelId := model.modelId
  name := model.name
  description := some model.description
  sourceModel :=
    if model.sourceModel = [] then "local-openvino:".toList ++ directory else model.sourceModel
  backend := model.backend
  weightFormat := model.weightFormat
  recommendedDevice := model.recommendedDevice
  maxContextLen := model.maxContextLen
  maxOutputTokens := model.maxOutputTokens
  trustRemoteCode := false

def AdoptRequest.facts (req : AdoptRequest) (env : Environment) : DirectoryFacts :=
  env.managed (strip isSpace req.directoryName)

/-- The checks of `adopt_managed` on the directory. -/
def checkManaged (env : Environment) (req : AdoptRequest) : Except LibraryError Unit :=
  let name := strip isSpace req.directoryName
  let facts := req.facts env
  if name = [] ∨ name = ['.'] ∨ name = ['.', '.'] ∨ '/' ∈ name ∨ '\\' ∈ name then
    .error .directoryName
  else if facts.reparsePoint then .error .reparsePoint
  else if !facts.inModelsDir then .error .escapedDirectory
  else if !facts.isModel then .error .notAModelDirectory
  else if facts.sizeBytes = none then .error .linkInside
  else .ok ()

/-- Another entry has this directory. -/
def isRegisteredPath (env : Environment) (catalog : Catalog) (path : Str) : Bool :=
  catalog.items.any fun item => env.resolveEntry item.2 = some path

def checkUnregistered (env : Environment) (req : AdoptRequest) (catalog : Catalog) :
    Except LibraryError Unit :=
  if (catalog.get? req.modelId).isSome then .error (.registeredId req.modelId)
  else if isRegisteredPath env catalog (req.facts env).path.text then .error .registeredDirectory
  else .ok ()

/-- The entry that the adoption registers. -/
def AdoptRequest.config (req : AdoptRequest) (env : Environment) : Option ModelConfig :=
  definitionToConfig (req.definition (req.facts env).name) (req.facts env).path none

def ofOption {α : Type} (e : LibraryError) : Option α → Except LibraryError α
  | none => .error e
  | some a => .ok a

/-- `adopt_managed`; the health of the conversion is read once the model is registered. -/
def adoptManaged (env : Environment) (req : AdoptRequest) : LibraryM Report := do
  check fun _ => checkManaged env req
  check fun s => checkUnregistered env req s.catalog
  let previous ← readIndex
  let s ← get
  let cfg ← check fun _ => ofOption .invalidDefinition (req.config env)
  undoing
    (do
      writeUserIds env (previous ++ [req.modelId])
      saveStep (s.catalog.set req.modelId cfg)
      reloadStep)
    (restore s.userFile s.catalog)
  check fun _ => if (req.facts env).markerReadable then .ok () else .error .unreadableMarker
  return { registered := some req.modelId }

/-- The checks of `import_converted` before it copies. -/
def checkSource (env : Environment) (req : ConvertedRequest) (s : Library) :
    Except LibraryError Unit :=
  let facts := env.source req.sourcePath
  if req.overwrite then .error .replacementDisabled
  else if !facts.absolute then .error .relativePath
  else if facts.reparsePoint then .error .reparsePoint
  else if !facts.isModel then .error .notAModelDirectory
  else
    match facts.sizeBytes with
    | none => .error .linkInside
    | some size =>
      if facts.targetEscapes then .error .escapedDirectory
      else if (s.catalog.get? req.modelId).isSome then .error (.registeredId req.modelId)
      else if req.modelId ∈ s.directories ∨ facts.isTarget then
        .error (.existingDirectory req.modelId)
      else if env.freeBytes < size + 256 * 1024 * 1024 then .error .diskSpace
      else .ok ()

/-- The temporary directory of an import. -/
def ConvertedRequest.temp (req : ConvertedRequest) (env : Environment) : Str :=
  '.' :: (req.modelId ++ (".import-".toList ++ env.token))

/-- `shutil.rmtree(…, ignore_errors=True)` -/
def removeTree (name : Str) : LibraryM Unit :=
  change fun s => { s with directories := s.directories.filter fun other => other ≠ name }

/-- The checks of the copy. -/
def checkCopy (env : Environment) (req : ConvertedRequest) : Except LibraryError Unit :=
  let facts := env.source req.sourcePath
  if !facts.copies then .error .copy
  else if facts.copySizeBytes = none then .error .linkInside
  else if !facts.copyIsModel then .error .notAModelDirectory
  else .ok ()

/-- `shutil.copytree` and the checks after it; what a failed copy leaves is there too. -/
def copyTree (env : Environment) (req : ConvertedRequest) : LibraryM Unit := do
  change fun s => { s with directories := req.temp env :: s.directories }
  check fun _ => checkCopy env req

/-- The checks that are made again under the lock. -/
def checkTarget (req : ConvertedRequest) (s : Library) : Except LibraryError Unit :=
  if (s.catalog.get? req.modelId).isSome then .error (.registeredId req.modelId)
  else if req.modelId ∈ s.directories then .error (.existingDirectory req.modelId)
  else .ok ()

/-- `temp.replace(target)` -/
def renameStep (env : Environment) (req : ConvertedRequest) : LibraryM Unit :=
  attempt .rename fun s =>
    { s with
      directories := req.modelId :: s.directories.filter fun other => other ≠ req.temp env }

/-- The entry that the import registers. -/
def ConvertedRequest.config (req : ConvertedRequest) (env : Environment) : Option ModelConfig :=
  definitionToConfig (req.definition (env.source req.sourcePath).name) (env.target req.modelId) none

/-- `import_converted`.  The flags `state_captured` and `target_installed` say how far the body
got; here each of its three parts has the handler that they select. -/
def importConverted (env : Environment) (req : ConvertedRequest) : LibraryM Report := do
  check fun s => checkSource env req s
  let previous ← undoing
    (do
      copyTree env req
      check fun s => checkTarget req s
      readIndex)
    (removeTree (req.temp env))
  let s ← get
  undoing (renameStep env req)
    (do
      removeTree (req.temp env)
      restore s.userFile s.catalog)
  undoing
    (do
      let cfg ← check fun _ => ofOption .invalidDefinition (req.config env)
      attempt .recordMetadata fun s => s
      writeUserIds env (previous ++ [req.modelId])
      saveStep (s.catalog.set req.modelId cfg)
      reloadStep)
    (do
      removeTree (req.temp env)
      removeTree req.modelId
      restore s.userFile s.catalog)
  return { registered := some req.modelId }

/-! ### Calls -/

inductive LibraryCall where
  | importDefinitions (payload : List (Str × JsonValue)) (overwrite : Bool)
  | applyOfficialDefinitions (manifest : Manifest)
  | adoptManaged (req : AdoptRequest)
  | importConverted (req : ConvertedRequest)

def LibraryCall.perform (env : Environment) : LibraryCall → LibraryM Report
  | .importDefinitions payload overwrite => ModelLibrary.importDefinitions env payload overwrite
  | .applyOfficialDefinitions manifest => ModelLibrary.applyOfficialDefinitions env manifest
  | .adoptManaged req => ModelLibrary.adoptManaged env req
  | .importConverted req => ModelLibrary.importConverted env req

/-- The definition that one imported value asks for. -/
def requestedBy (env : Environment) : Str × JsonValue → Option RegisterRequest
  | (key, .obj raw) => parseDefinition env key raw
  | _ => none

def officialRequest (item : Str × RegisterRequest) : Option RegisterRequest :=
  RegisterRequest.validate { item.2 with trustRemoteCode := false }

/-- The definitions that a call asks for, as the request schema validates them. -/
def LibraryCall.requested (env : Environment) : LibraryCall → List RegisterRequest
  | .importDefinitions payload _ => (rawModels payload).filterMap (requestedBy env)
  | .applyOfficialDefinitions manifest => manifest.catalog.items.filterMap officialRequest
  | .adoptManaged req => (req.definition (req.facts env).name).validate.toList
  | .importConverted req => (req.definition (env.source req.sourcePath).name).validate.toList

end InferBridge.ModelLibrary
