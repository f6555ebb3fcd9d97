/-
InferBridge/Catalog.lean

The model catalog and its file (app/model_registry.py): how an entry is
read, with its defaults and checks, and how it is written.

The file is the decoded JSON document; writing and reading JSON text is
taken to be lossless.  Fields with a fixed set of values are enumerations.

Main results.  `coerceEntry_saveEntry_iff` says which entries are read back
as they were written: the canonical ones.  Every entry that is read is
canonical (`canonicalCatalog_loadCatalog`), and a catalog survives a restart
exactly if all its entries are (`lossless_iff_canonical`).
-/
import InferBridge.DeviceNames
import InferBridge.LoadSafety
import InferBridge.Lib.Dict
import InferBridge.Lib.Transition

namespace InferBridge

open Text

/-! ### The catalog -/

/-- A decoded JSON value; integers and other numbers are told apart. -/
inductive JsonValue where
  | null
  | bool (b : Bool)
  | int (n : Int)
  | float (literal : Str)
  | str (s : Str)
  | arr (items : List JsonValue)
  | obj (fields : List (Str × JsonValue))

inductive Backend where
  | genai
  | embeddings
  | vlm
deriving DecidableEq, Repr

/-- An explicit KV-cache precision; `auto` is the absence of one. -/
inductive KvPrecision where
  | f16
  | u8
  | u4
deriving DecidableEq, Repr

structure ModelConfig where
  id : Str
  name : Str
  description : Str
  backend : Backend
  modelPath : Str
  sourceModel : Str
  weightFormat : WeightFormat
  recommendedDevice : Str
  maxContextLen : Int
  maxOutputTokens : Int
  trustRemoteCode : Bool := false
  recommendedContextLen : Option Int := none
  kvCachePrecision : Option KvPrecision := none
deriving DecidableEq

abbrev Catalog := Dict Str ModelConfig

/-- The document in the catalog file. -/
abbrev CatalogFile := Dict Str JsonValue

/-! ### Names of enumerated values -/

def Backend.text : Backend → Str
  | .genai => "openvino-genai".toList
  | .embeddings => "openvino-embeddings".toList
  | .vlm => "openvino-vlm".toList

def WeightFormat.text : WeightFormat → Str
  | .int4 => "int4".toList
  | .int8 => "int8".toList
  | .fp16 => "fp16".toList

def KvPrecision.text : KvPrecision → Str
  | .f16 => "f16".toList
  | .u8 => "u8".toList
  | .u4 => "u4".toList

/-- `str.lower` of one character, as far as these names can tell: the characters with an ASCII
letter as their lower case, the Kelvin sign among them. -/
def lowerChar (c : Char) : Char :=
  if 65 ≤ c.toNat ∧ c.toNat ≤ 90 then Char.ofNat (c.toNat + 32)
  else if c.toNat = 0x212A then 'k'
  else c

def lower (s : Str) : Str := s.map lowerChar

/-- The value with this name. -/
def named {α : Type} (values : List α) (text : α → Str) (s : Str) : Option α :=
  values.find? fun v => text v = s

def Backend.ofText : Str → Option Backend := named [.genai, .embeddings, .vlm] Backend.text

def WeightFormat.ofText : Str → Option WeightFormat := named [.int4, .int8, .fp16] WeightFormat.text

def KvPrecision.ofText : Str → Option KvPrecision := named [.f16, .u8, .u4] KvPrecision.text

/-! ### Reading -/

def maxContext : Int := 262144

def maxOutput : Int := 65536

/-- `_string_field`; `none` is a `ValueError`. -/
def stringField (raw : List (Str × JsonValue)) (key default : Str) (allowEmpty : Bool) :
    Option Str :=
  match (raw.lookup key).getD (.str default) with
  | .str value =>
    let value := strip isSpace value
    if value = [] ∧ allowEmpty = false then none else some value
  | .null => if allowEmpty then some [] else none
  | _ => none

/-- `_integer_field` -/
def integerField (raw : List (Str × JsonValue)) (key : Str) (default minimum maximum : Int) :
    Option Int :=
  match (raw.lookup key).getD (.int default) with
  | .int value => if minimum ≤ value ∧ value ≤ maximum then some value else none
  | _ => none

def isAlphanumeric (c : Char) : Bool :=
  (48 ≤ c.toNat && c.toNat ≤ 57) || (65 ≤ c.toNat && c.toNat ≤ 90) ||
    (97 ≤ c.toNat && c.toNat ≤ 122)

/-- `^[A-Za-z0-9][A-Za-z0-9_.-]{0,127}$` -/
def isModelId : Str → Bool
  | [] => false
  | c :: rest =>
    isAlphanumeric c && rest.length ≤ 127 &&
      rest.all fun c => isAlphanumeric c || c = '_' || c = '.' || c = '-'

/-- The budget rule that a catalog entry and a registration share. -/
def validBudget (backend : Backend) (context output : Int) : Bool :=
  match backend with
  | .embeddings => output = 0
  | .genai | .vlm => 1 ≤ output && output < context

/-- A corrupt preference is dropped, not the model. -/
def readRecommendedContext (raw : List (Str × JsonValue)) (backend : Backend)
    (context output : Int) : Option Int :=
  if (raw.lookup "recommended_context_len".toList).isSome then
    (integerField raw "recommended_context_len".toList context 128 maxContext).filter fun value =>
      backend = .embeddings || output < value
  else none

def readKvPrecision (raw : List (Str × JsonValue)) : Option KvPrecision :=
  match raw.lookup "kv_cache_precision".toList with
  | some (.str value) => KvPrecision.ofText (lower (strip isSpace value))
  | _ => none

def readTrustRemoteCode (raw : List (Str × JsonValue)) : Option Bool :=
  match (raw.lookup "trust_remote_code".toList).getD (.bool false) with
  | .bool b => some b
  | _ => none

/-- The prefix of the default directory of a model. -/
def modelsRoot : Str := "models/openvino/".toList

/-- `_coerce_entry`; `none` is a `ValueError`. -/
def coerceEntry (modelId : Str) (raw : List (Str × JsonValue)) : Option ModelConfig :=
  if isModelId modelId = false then none
  else do
    let trustRemoteCode ← readTrustRemoteCode raw
    let backend ← (stringField raw "backend".toList "openvino-genai".toList false).bind
      fun s => Backend.ofText (lower s)
    let weightFormat ← (stringField raw "weight_format".toList "int4".toList false).bind
      fun s => WeightFormat.ofText (lower s)
    let device ← (stringField raw "recommended_device".toList "NPU".toList false).bind
      DeviceCheck.parseDeviceExpression
    let maxContextLen ← integerField raw "max_context_len".toList 2048 128 maxContext
    let maxOutputTokens ← integerField raw "max_output_tokens".toList 512 0 maxOutput
    if validBudget backend maxContextLen maxOutputTokens = false then none
    else
      let name ← stringField raw "name".toList modelId false
      let description ← stringField raw "description".toList [] true
      let modelPath ← stringField raw "model_path".toList (modelsRoot ++ modelId) false
      let sourceModel ← stringField raw "source_model".toList [] true
      some
        { id := modelId, name, description, backend, modelPath, sourceModel, weightFormat,
          recommendedDevice := device.normalized, maxContextLen, maxOutputTokens, trustRemoteCode,
          recommendedContextLen :=
            readRecommendedContext raw backend maxContextLen maxOutputTokens
          kvCachePrecision := readKvPrecision raw }

def coerceValue (modelId : Str) : JsonValue → Option ModelConfig
  | .obj raw => coerceEntry modelId raw
  | _ => none

/-- `load_catalog`; `none` is a file that is missing, unreadable or not an object. -/
def loadCatalog : Option CatalogFile → Catalog
  | none => Dict.empty
  | some data => data.filterMap coerceValue

/-! ### Writing -/

def saveEntry (cfg : ModelConfig) : List (Str × JsonValue) :=
  [("name".toList, .str cfg.name), ("description".toList, .str cfg.description),
    ("backend".toList, .str cfg.backend.text), ("model_path".toList, .str cfg.modelPath),
    ("source_model".toList, .str cfg.sourceModel),
    ("weight_format".toList, .str cfg.weightFormat.text),
    ("recommended_device".toList, .str cfg.recommendedDevice),
    ("max_context_len".toList, .int cfg.maxContextLen)] ++
  (match cfg.recommendedContextLen with
    | some value => [("recommended_context_len".toList, .int value)]
    | none => []) ++
  [("max_output_tokens".toList, .int cfg.maxOutputTokens),
    ("trust_remote_code".toList, .bool cfg.trustRemoteCode)] ++
  (match cfg.kvCachePrecision with
    | some value => [("kv_cache_precision".toList, .str value.text)]
    | none => [])

/-- `save_catalog` -/
def saveCatalog (catalog : Catalog) : CatalogFile :=
  catalog.mapValues fun _ cfg => .obj (saveEntry cfg)

/-- A restart finds the catalog as it is. -/
def Lossless (catalog : Catalog) : Prop := loadCatalog (some (saveCatalog catalog)) = catalog

/-! ### The fields of a written entry -/

/-- What a written entry says. -/
structure Written (raw : List (Str × JsonValue)) (cfg : ModelConfig) : Prop where
  name : raw.lookup "name".toList = some (.str cfg.name)
  description : raw.lookup "description".toList = some (.str cfg.description)
  backend : raw.lookup "backend".toList = some (.str cfg.backend.text)
  modelPath : raw.lookup "model_path".toList = some (.str cfg.modelPath)
  sourceModel : raw.lookup "source_model".toList = some (.str cfg.sourceModel)
  weightFormat : raw.lookup "weight_format".toList = some (.str cfg.weightFormat.text)
  recommendedDevice :
    raw.lookup "recommended_device".toList = some (.str cfg.recommendedDevice)
  maxContextLen : raw.lookup "max_context_len".toList = some (.int cfg.maxContextLen)
  maxOutputTokens : raw.lookup "max_output_tokens".toList = some (.int cfg.maxOutputTokens)
  trustRemoteCode : raw.lookup "trust_remote_code".toList = some (.bool cfg.trustRemoteCode)
  recommendedContextLen :
    raw.lookup "recommended_context_len".toList = cfg.recommendedContextLen.map .int
  kvCachePrecision :
    raw.lookup "kv_cache_precision".toList =
      cfg.kvCachePrecision.map fun value => .str value.text

variable {cfg : ModelConfig} {raw : List (Str × JsonValue)} {modelId key default : Str}

theorem written_saveEntry : Written (saveEntry cfg) cfg where
  name := rfl
  description := rfl
  backend := rfl
  modelPath := rfl
  sourceModel := rfl
  weightFormat := rfl
  recommendedDevice := rfl
  maxContextLen := rfl
  maxOutputTokens := by
    unfold saveEntry
    rcases cfg.recommendedContextLen with - | value <;> rfl
  trustRemoteCode := by
    unfold saveEntry
    rcases cfg.recommendedContextLen with - | value <;> rfl
  recommendedContextLen := by
    unfold saveEntry
    rcases cfg.recommendedContextLen with - | value <;> rcases cfg.kvCachePrecision with - | p <;>
      rfl
  kvCachePrecision := by
    unfold saveEntry
    rcases cfg.recommendedContextLen with - | value <;> rcases cfg.kvCachePrecision with - | p <;>
      rfl

/-! ### Which entries are read back -/

theorem stringField_str {value : Str} (h : raw.lookup key = some (.str value)) (allowEmpty : Bool) :
    stringField raw key default allowEmpty =
      if strip isSpace value = [] ∧ allowEmpty = false then none
      else some (strip isSpace value) := by
  rw [stringField, h]
  rfl

theorem stringField_eq_some {value value' : Str} (h : raw.lookup key = some (.str value))
    (allowEmpty : Bool) : stringField raw key default allowEmpty = some value' ↔
      strip isSpace value = value' ∧ (allowEmpty = false → value' ≠ []) := by
  rw [stringField_str h]
  cases allowEmpty with
  | true => simp
  | false =>
    constructor
    · intro hsome
      split at hsome
      · cases hsome
      · next hnonempty =>
        obtain rfl := Option.some.inj hsome
        exact ⟨rfl, fun _ hnil => hnonempty ⟨hnil, rfl⟩⟩
    · rintro ⟨rfl, hnonempty⟩
      rw [if_neg (fun h => hnonempty rfl h.1)]

theorem integerField_eq_some {value value' minimum maximum d : Int}
    (h : raw.lookup key = some (.int value)) :
    integerField raw key d minimum maximum = some value' ↔
      value = value' ∧ minimum ≤ value ∧ value ≤ maximum := by
  rw [integerField, h]
  show (if minimum ≤ value ∧ value ≤ maximum then some value else none) = some value' ↔ _
  split
  · next hrange => simp [hrange]
  · next hrange =>
    constructor
    · intro hnone
      cases hnone
    · rintro ⟨-, hrange'⟩
      exact absurd hrange' hrange

theorem backend_ofText (backend : Backend) :
    Backend.ofText (lower (strip isSpace backend.text)) = some backend := by
  cases backend <;> decide

theorem weightFormat_ofText (format : WeightFormat) :
    WeightFormat.ofText (lower (strip isSpace format.text)) = some format := by
  cases format <;> decide

theorem kvPrecision_ofText (precision : KvPrecision) :
    KvPrecision.ofText (lower (strip isSpace precision.text)) = some precision := by
  cases precision <;> decide

/-- An entry that a restart finds as it is. -/
structure ModelConfig.Canonical (cfg : ModelConfig) : Prop where
  id : isModelId cfg.id = true
  name : strip isSpace cfg.name = cfg.name ∧ cfg.name ≠ []
  description : strip isSpace cfg.description = cfg.description
  modelPath : strip isSpace cfg.modelPath = cfg.modelPath ∧ cfg.modelPath ≠ []
  sourceModel : strip isSpace cfg.sourceModel = cfg.sourceModel
  device : ∃ e, DeviceCheck.parseDeviceExpression cfg.recommendedDevice = some e ∧
    e.normalized = cfg.recommendedDevice
  context : 128 ≤ cfg.maxContextLen ∧ cfg.maxContextLen ≤ maxContext
  output : 0 ≤ cfg.maxOutputTokens ∧ cfg.maxOutputTokens ≤ maxOutput
  budget : validBudget cfg.backend cfg.maxContextLen cfg.maxOutputTokens = true
  recommended : ∀ value, cfg.recommendedContextLen = some value →
    128 ≤ value ∧ value ≤ maxContext ∧ (cfg.backend = .embeddings ∨ cfg.maxOutputTokens < value)

theorem readTrustRemoteCode_written (h : Written raw cfg) :
    readTrustRemoteCode raw = some cfg.trustRemoteCode := by
  rw [readTrustRemoteCode, h.trustRemoteCode]
  rfl

theorem readKvPrecision_written (h : Written raw cfg) :
    readKvPrecision raw = cfg.kvCachePrecision := by
  rw [readKvPrecision, h.kvCachePrecision]
  rcases cfg.kvCachePrecision with - | precision
  · rfl
  · exact kvPrecision_ofText precision

theorem readRecommendedContext_written (h : Written raw cfg) :
    readRecommendedContext raw cfg.backend cfg.maxContextLen cfg.maxOutputTokens =
        cfg.recommendedContextLen ↔
      ∀ value, cfg.recommendedContextLen = some value → 128 ≤ value ∧ value ≤ maxContext ∧
        (cfg.backend = .embeddings ∨ cfg.maxOutputTokens < value) := by
  rw [readRecommendedContext, h.recommendedContextLen]
  rcases hvalue : cfg.recommendedContextLen with - | value
  · simp
  · have hlookup : raw.lookup "recommended_context_len".toList = some (.int value) := by
      rw [h.recommendedContextLen, hvalue]
      rfl
    simp only [Option.map_some, Option.isSome_some, if_true, Option.some.injEq, forall_eq',
      Option.filter_eq_some_iff, integerField_eq_some hlookup, true_and, Bool.or_eq_true,
      decide_eq_true_eq, and_assoc]

theorem readBackend_written (h : Written raw cfg) :
    (stringField raw "backend".toList default false).bind (fun s => Backend.ofText (lower s)) =
      some cfg.backend := by
  have hnonempty : strip isSpace cfg.backend.text ≠ [] := by
    cases cfg.backend <;> decide
  rw [stringField_str h.backend, if_neg (fun hnil => hnonempty hnil.1)]
  exact backend_ofText cfg.backend

theorem readWeightFormat_written (h : Written raw cfg) :
    (stringField raw "weight_format".toList default false).bind
      (fun s => WeightFormat.ofText (lower s)) = some cfg.weightFormat := by
  have hnonempty : strip isSpace cfg.weightFormat.text ≠ [] := by
    cases cfg.weightFormat <;> decide
  rw [stringField_str h.weightFormat, if_neg (fun hnil => hnonempty hnil.1)]
  exact weightFormat_ofText cfg.weightFormat

/-- A device is read back if its text is normalized. -/
theorem readDevice_written (h : Written raw cfg) :
    (∃ e, (stringField raw "recommended_device".toList default false).bind
        DeviceCheck.parseDeviceExpression = some e ∧ e.normalized = cfg.recommendedDevice) ↔
      ∃ e, DeviceCheck.parseDeviceExpression cfg.recommendedDevice = some e ∧
        e.normalized = cfg.recommendedDevice := by
  have hread : strip isSpace cfg.recommendedDevice = cfg.recommendedDevice →
      cfg.recommendedDevice ≠ [] →
        (stringField raw "recommended_device".toList default false).bind
            DeviceCheck.parseDeviceExpression =
          DeviceCheck.parseDeviceExpression cfg.recommendedDevice := by
    intro hstrip hnonempty
    rw [stringField_str h.recommendedDevice, hstrip, if_neg (fun hnil => hnonempty hnil.1)]
    rfl
  constructor
  · rintro ⟨e, hparse, hnormalized⟩
    obtain ⟨s, -, hs⟩ := Option.bind_eq_some_iff.mp hparse
    obtain ⟨hkept, hnonempty⟩ := DeviceCheck.normalized_kept hs
    rw [hnormalized] at hkept hnonempty
    rw [hread (DeviceCheck.strip_kept hkept) hnonempty] at hparse
    exact ⟨e, hparse, hnormalized⟩
  · rintro ⟨e, hparse, hnormalized⟩
    obtain ⟨hkept, hnonempty⟩ := DeviceCheck.normalized_kept hparse
    rw [hnormalized] at hkept hnonempty
    exact ⟨e, (hread (DeviceCheck.strip_kept hkept) hnonempty).trans hparse, hnormalized⟩

/-- **Reading back.** A written entry is read back as it was exactly if it is canonical. -/
theorem coerceEntry_saveEntry_iff :
    coerceEntry modelId (saveEntry cfg) = some cfg ↔ cfg.id = modelId ∧ cfg.Canonical := by
  have h : Written (saveEntry cfg) cfg := written_saveEntry
  generalize saveEntry cfg = raw at h
  unfold coerceEntry
  simp only [readTrustRemoteCode_written h, readBackend_written h, readWeightFormat_written h,
    readKvPrecision_written h, Option.bind_eq_bind, Option.bind_some]
  constructor
  · intro hread
    split at hread
    · cases hread
    · next hid =>
      simp only [Option.bind_eq_some_iff] at hread
      obtain ⟨e, hdevice, context, hcontext, output, houtput, hread⟩ := hread
      split at hread
      · cases hread
      · next hbudget =>
        simp only [Option.bind_eq_some_iff] at hread
        obtain ⟨name, hname, description, hdescription, modelPath, hmodelPath, source, hsource,
          hread⟩ := hread
        have hcfg := Option.some.inj hread
        obtain rfl : modelId = cfg.id := congrArg ModelConfig.id hcfg
        obtain rfl : context = cfg.maxContextLen := congrArg ModelConfig.maxContextLen hcfg
        obtain rfl : output = cfg.maxOutputTokens := congrArg ModelConfig.maxOutputTokens hcfg
        obtain rfl : name = cfg.name := congrArg ModelConfig.name hcfg
        obtain rfl : description = cfg.description := congrArg ModelConfig.description hcfg
        obtain rfl : modelPath = cfg.modelPath := congrArg ModelConfig.modelPath hcfg
        obtain rfl : source = cfg.sourceModel := congrArg ModelConfig.sourceModel hcfg
        rw [stringField_eq_some h.name] at hname
        rw [stringField_eq_some h.description] at hdescription
        rw [stringField_eq_some h.modelPath] at hmodelPath
        rw [stringField_eq_some h.sourceModel] at hsource
        refine ⟨rfl, ⟨by simpa using hid, ⟨hname.1, hname.2 rfl⟩, hdescription.1,
          ⟨hmodelPath.1, hmodelPath.2 rfl⟩, hsource.1, ?_, ?_, ?_, by simpa using hbudget, ?_⟩⟩
        · exact (readDevice_written h).mp
            ⟨e, Option.bind_eq_some_iff.mpr hdevice, congrArg ModelConfig.recommendedDevice hcfg⟩
        · exact ((integerField_eq_some h.maxContextLen).mp hcontext).2
        · exact ((integerField_eq_some h.maxOutputTokens).mp houtput).2
        · exact (readRecommendedContext_written h).mp
            (congrArg ModelConfig.recommendedContextLen hcfg)
  · rintro ⟨rfl, hcanonical⟩
    obtain ⟨e, hdevice, hnormalized⟩ :
        ∃ e, (stringField raw "recommended_device".toList "NPU".toList false).bind
          DeviceCheck.parseDeviceExpression = some e ∧ e.normalized = cfg.recommendedDevice :=
      (readDevice_written h).mpr hcanonical.device
    have hcontext : integerField raw "max_context_len".toList 2048 128 maxContext =
        some cfg.maxContextLen :=
      (integerField_eq_some h.maxContextLen).mpr ⟨rfl, hcanonical.context⟩
    have houtput : integerField raw "max_output_tokens".toList 512 0 maxOutput =
        some cfg.maxOutputTokens :=
      (integerField_eq_some h.maxOutputTokens).mpr ⟨rfl, hcanonical.output⟩
    have hname : stringField raw "name".toList cfg.id false = some cfg.name :=
      (stringField_eq_some h.name false).mpr ⟨hcanonical.name.1, fun _ => hcanonical.name.2⟩
    have hdescription : stringField raw "description".toList [] true = some cfg.description :=
      (stringField_eq_some h.description true).mpr ⟨hcanonical.description, nofun⟩
    have hmodelPath : stringField raw "model_path".toList (modelsRoot ++ cfg.id) false =
        some cfg.modelPath :=
      (stringField_eq_some h.modelPath false).mpr
        ⟨hcanonical.modelPath.1, fun _ => hcanonical.modelPath.2⟩
    have hsource : stringField raw "source_model".toList [] true = some cfg.sourceModel :=
      (stringField_eq_some h.sourceModel true).mpr ⟨hcanonical.sourceModel, nofun⟩
    have hrecommended := (readRecommendedContext_written h).mpr hcanonical.recommended
    rw [if_neg (by simp [hcanonical.id])]
    simp only [hdevice, hcontext, houtput, Option.bind_some, hcanonical.budget,
      Bool.true_eq_false, if_false, hname, hdescription, hmodelPath, hsource, hrecommended,
      hnormalized]

/-! ### What is read is canonical -/

theorem stringField_stripped {allowEmpty : Bool} {value : Str}
    (h : stringField raw key default allowEmpty = some value) :
    strip isSpace value = value ∧ (allowEmpty = false → value ≠ []) := by
  unfold stringField at h
  split at h
  · next text _ =>
    dsimp only at h
    split at h
    · cases h
    · next hnonempty =>
      obtain rfl := Option.some.inj h
      exact ⟨strip_strip text, fun hallow hnil => hnonempty ⟨hnil, hallow⟩⟩
  · split at h
    · next hallow =>
      obtain rfl := Option.some.inj h
      refine ⟨rfl, ?_⟩
      intro hno
      rw [hno] at hallow
      cases hallow
    · cases h
  · cases h

theorem integerField_range {d minimum maximum value : Int}
    (h : integerField raw key d minimum maximum = some value) :
    minimum ≤ value ∧ value ≤ maximum := by
  unfold integerField at h
  split at h
  · split at h
    · next hrange =>
      obtain rfl := Option.some.inj h
      exact hrange
    · cases h
  · cases h

theorem coerceEntry_canonical (h : coerceEntry modelId raw = some cfg) :
    cfg.id = modelId ∧ cfg.Canonical := by
  unfold coerceEntry at h
  split at h
  · cases h
  · next hid =>
    simp only [Option.bind_eq_bind, Option.bind_eq_some_iff] at h
    obtain ⟨trust, -, backend, -, format, -, e, ⟨device, -, hdevice⟩, context, hcontext, output,
      houtput, h⟩ := h
    split at h
    · cases h
    · next hbudget =>
      simp only [Option.bind_eq_some_iff] at h
      obtain ⟨name, hname, description, hdescription, modelPath, hmodelPath, source, hsource, h⟩ := h
      obtain rfl := Option.some.inj h
      have hname := stringField_stripped hname
      have hmodelPath := stringField_stripped hmodelPath
      refine ⟨rfl, ⟨by simpa using hid, ⟨hname.1, hname.2 rfl⟩,
        (stringField_stripped hdescription).1, ⟨hmodelPath.1, hmodelPath.2 rfl⟩,
        (stringField_stripped hsource).1,
        ⟨e, DeviceCheck.parseDeviceExpression_normalized hdevice, rfl⟩,
        integerField_range hcontext, integerField_range houtput, by simpa using hbudget, ?_⟩⟩
      intro value hvalue
      have hvalue' : readRecommendedContext raw backend context output = some value := hvalue
      unfold readRecommendedContext at hvalue'
      split at hvalue'
      · obtain ⟨hread, hbudget⟩ := Option.filter_eq_some_iff.mp hvalue'
        obtain ⟨hmin, hmax⟩ := integerField_range hread
        refine ⟨hmin, hmax, ?_⟩
        simpa using hbudget
      · cases hvalue'

/-- The entries of a catalog stand under their identifiers and are canonical. -/
def CanonicalCatalog (catalog : Catalog) : Prop :=
  ∀ item ∈ catalog.items, item.2.id = item.1 ∧ item.2.Canonical

theorem lossless_iff_canonical {catalog : Catalog} :
    Lossless catalog ↔ CanonicalCatalog catalog := by
  unfold Lossless loadCatalog saveCatalog CanonicalCatalog
  rw [Dict.filterMap_mapValues_eq_iff]
  refine forall₂_congr fun item _ => ?_
  exact coerceEntry_saveEntry_iff

theorem canonicalCatalog_loadCatalog (file : Option CatalogFile) :
    CanonicalCatalog (loadCatalog file) := by
  rcases file with - | data
  · nofun
  · intro item hitem
    obtain ⟨⟨id, value⟩, -, hdecoded⟩ := List.mem_filterMap.mp hitem
    obtain ⟨cfg, hcfg, rfl⟩ := Option.map_eq_some_iff.mp hdecoded
    cases value with
    | obj raw => exact coerceEntry_canonical hcfg
    | _ => cases hcfg

end InferBridge
