/-
InferBridge/ContextAgreement.lean

The context rules of the server (app/context_configuration.py) beside those of the
native client (ContextConfigurationClient.cs, ContextEditor.cs).

`describe_context` writes a document, the client reads it back and from then on
checks values by its own bounds.  The document is its decoded tree; a floating
point number arrives as it was sent.

Design.  `describe_checked` says what each option of the document is, and
`parseContext_describe` what the client makes of the whole: it refuses the
document where a budget is out of the range that it checks, or reads exactly the
recommendation, the reserve and the limit.  From these both sides compute the same
bounds.

Main result.  `agreement_iff`: the two sides agree on every value exactly if no
limit in the metadata is below the smallest context, and the saved context leaves
the prompt its floor of 64 tokens.
-/
import InferBridge.ContextBounds
import InferBridge.ContextPreflight
import InferBridge.DeviceNames
import InferBridge.Lib.Binary64

namespace InferBridge.ContextAgreement

open ContextConfiguration

/-! ### The document -/

/-- A decoded document; integers and floating point numbers are told apart. -/
inductive WireValue where
  | null
  | bool (b : Bool)
  | int (n : Int)
  | double (x : ℚ)
  | str (s : Str)
  | arr (items : List WireValue)
  | obj (fields : List (Str × WireValue))

def optional {α : Type} (wrap : α → WireValue) : Option α → WireValue
  | some value => wrap value
  | none => .null

/-- `f"{n:,}"`, and `ToString("N0")` of the invariant culture -/
def grouped (n : Int) : Str :=
  let digits := (Nat.toDigits 10 n.natAbs).reverse
  let groups := (digits.toChunks 3).map List.reverse
  (if n < 0 then ['-'] else []) ++ [','].intercalate groups.reverse

/-! ### The server -/

/-- `STANDARD_PRESETS` -/
def standardPresets : List Int := [2048, 4096, 8192, 16384, 32768, 65536, 131072]

/-- `KV_BYTES_PER_ELEMENT` -/
def kvBytes : KvPrecision → ℚ
  | .f16 => 2
  | .u8 => 9 / 8
  | .u4 => 5 / 8

/-- `kv_precision_device_supported` -/
def kvPrecisionDeviceSupported (device : Option Str) : Bool :=
  let text := DeviceCheck.upper (Text.strip isSpace (device.getD []))
  let base := text.takeWhile (· ≠ '.')
  !(text.isEmpty || text.contains ':' || text.contains ',') &&
    (base = "CPU".toList || base = "GPU".toList)

/-- `heads`, or the fallback -/
def keyValueHeads (metadata : Metadata) : Option Int :=
  positiveInt (metadata.lookup "num_key_value_heads".toList) <|>
    positiveInt (metadata.lookup "num_attention_heads".toList)

def headDim (metadata : Metadata) : Option Int :=
  positiveInt (metadata.lookup "head_dim".toList) <|> do
    let hidden ← positiveInt (metadata.lookup "hidden_size".toList)
    let attentionHeads ← positiveInt (metadata.lookup "num_attention_heads".toList)
    if hidden % attentionHeads = 0 then some (hidden / attentionHeads) else none

/-- `round(x, 3)` -/
def roundThousandths (x : ℚ) : ℚ := Binary64.round (Binary64.roundHalfEven (x * 1000) / 1000)

/-- `kv_cache_gib`; far below the range of the format, so that nothing overflows. -/
def kvCacheGib (metadata : Metadata) (context : Int) (precision : Option KvPrecision) :
    Option ℚ := do
  let layers ← positiveInt (metadata.lookup "num_hidden_layers".toList)
  let heads ← keyValueHeads metadata
  let dim ← headDim metadata
  let elements : Int := context * 2 * layers * heads * dim
  let bytes := Binary64.round (Binary64.round elements * kvBytes (precision.getD .f16))
  some (roundThousandths (Binary64.round (bytes / 1024 ^ 3)))

/-- `_kv_estimates` -/
def kvEstimates (cfg : ModelConfig) (metadata : Metadata) (value : Int) (device : Option Str) :
    List (Str × WireValue) :=
  let effective :=
    if device.isNone || kvPrecisionDeviceSupported device then cfg.kvCachePrecision else none
  [("fp16_kv_cache_gib_estimate".toList, optional .double (kvCacheGib metadata value (some .f16))),
    ("kv_cache_gib_estimate".toList, optional .double (kvCacheGib metadata value effective))]

def accepts (cfg : ModelConfig) (metadata : Metadata) (value : Int) : Bool :=
  match ContextConfiguration.validateContext cfg (.int value) metadata with
  | .ok () => true
  | .error _ => false

/-- `sorted(set)` -/
def sortedSet (values : List Int) : List Int := values.dedup.mergeSort (· ≤ ·)

/-- The candidates of `context_options`. -/
def candidates (cfg : ModelConfig) (metadata : Metadata) : List Int :=
  sortedSet [cfg.maxContextLen, cfg.recommendedOrMax, (contextBounds cfg metadata).2, 512, 1024,
    2048, 4096, 8192, 16384, 32768, 65536, 131072, 262144]

def classify (cfg : ModelConfig) (value : Int) : Str :=
  if value = cfg.recommendedOrMax then "recommended".toList
  else if value < cfg.recommendedOrMax then "lower-memory".toList
  else "eligible-unverified".toList

/-- The rows of `context_options`: tokens and classification. -/
def optionRows (cfg : ModelConfig) (metadata : Metadata) : List (Int × Str) :=
  let rows := ((candidates cfg metadata).filter (accepts cfg metadata)).map fun value =>
    (value, classify cfg value)
  if cfg.backend ≠ .embeddings ∧ (rows.any fun row => row.1 = cfg.maxContextLen) = false then
    (rows ++ [(cfg.maxContextLen, "existing-unverified".toList)]).mergeSort (·.1 ≤ ·.1)
  else rows

/-- `context_options` -/
def contextOptions (cfg : ModelConfig) (metadata : Metadata) (device : Option Str) :
    List WireValue :=
  (optionRows cfg metadata).map fun row =>
    .obj ([("tokens".toList, .int row.1), ("classification".toList, .str row.2)] ++
      kvEstimates cfg metadata row.1 device)

def isConfigurable (cfg : ModelConfig) : Bool := cfg.backend ≠ .embeddings

/-- The sizes of `context_presets`. -/
def presetSizes (cfg : ModelConfig) (metadata : Metadata) : List Int :=
  if isConfigurable cfg then
    (sortedSet (standardPresets ++
      if (modelLimit metadata).isSome then [(contextBounds cfg metadata).2] else [])).filter
        (accepts cfg metadata)
  else []

/-- `context_presets` -/
def contextPresets (cfg : ModelConfig) (metadata : Metadata) (device : Option Str) :
    List WireValue :=
  (presetSizes cfg metadata).map fun value =>
    .obj ([("tokens".toList, .int value),
      ("trial".toList, .bool (cfg.recommendedOrMax < value)),
      ("recommended".toList, .bool (value = cfg.recommendedOrMax)),
      ("model_max".toList,
        .bool ((modelLimit metadata).isSome && value = (contextBounds cfg metadata).2))] ++
      kvEstimates cfg metadata value device)

/-- The stored precisions by name, `auto` first. -/
def kvNames : List (Option KvPrecision) := [none, some .f16, some .u8, some .u4]

def precisionText (precision : Option KvPrecision) : Str :=
  (precision.map KvPrecision.text).getD "auto".toList

/-- `KV_CACHE_PRECISION_LABELS` -/
def kvLabel : Option KvPrecision → Str
  | none => "Auto (OpenVINO default)".toList
  | some .f16 => "FP16 (no KV compression)".toList
  | some .u8 => "INT8 (u8, ~half of FP16)".toList
  | some .u4 => "INT4 (u4, ~a third of FP16)".toList

/-- `kv_cache_precision_options` -/
def kvCachePrecisionOptions (device : Option Str) : List WireValue :=
  kvNames.map fun precision =>
    .obj [("value".toList, .str (precisionText precision)),
      ("label".toList, .str (kvLabel precision)),
      ("available".toList,
        .bool (precision.isNone || device.isNone || kvPrecisionDeviceSupported device)),
      ("bytes_per_element_estimate".toList, optional .double (precision.map kvBytes))]

/-- `_is_npu` -/
def isNpu (device : Option Str) : Bool :=
  (DeviceCheck.upper (Text.strip isSpace (device.getD []))).takeWhile (· ≠ '.') = "NPU".toList

/-- `context_guidance` -/
def contextGuidance (cfg : ModelConfig) (metadata : Metadata) (device : Option Str) : Str :=
  let npu := "The ".toList ++ grouped cfg.recommendedOrMax ++
    ("-token recommendation is an NPU-safe default: the NPU compiles " ++
      "a static graph with MAX_PROMPT_LEN = context minus the ").toList ++
    grouped cfg.maxOutputTokens ++
    ("-token output reserve and MIN_RESPONSE_LEN = the reserve, so larger values recompile and " ++
      "use more NPU memory.").toList
  match modelLimit metadata with
  | none =>
    npu ++ (" This model's config.json does not state an architecture limit, so the " ++
      "editor cannot go above the recommendation until metadata is available.").toList
  | some _ =>
    npu ++ (if isNpu device then " On CPU or GPU the same model" else " CPU and GPU").toList ++
      " use dynamic shapes and can go up to this model's maximum of ".toList ++
      grouped (contextBounds cfg metadata).2 ++
      (" tokens; KV-cache memory grows linearly with context, and INT8/INT4 " ++
        "KV precision reduces it.").toList

def precisionNote (applies : Bool) : Str :=
  if applies then
    ("KV cache precision applies to CPU and GPU loads. Auto keeps OpenVINO's own " ++
      "choice (often INT8 on CPU/GPU); estimates for Auto use the FP16 upper bound.").toList
  else
    ("The NPU manages its own KV cache, so KV cache precision is unavailable " ++
      "there. The saved value is used when this model loads on CPU or GPU.").toList

def explanation : Str :=
  ("Context values above the recommendation are trials, not validated hardware limits. " ++
    "Applying a change rebuilds the OpenVINO pipeline; available RAM and successful " ++
    "compilation do not guarantee long-prompt generation. KV-cache figures are " ++
    "architectural estimates (FP16 2 bytes, INT8 ~1.1, INT4 ~0.6 bytes per value " ++
    "including scales), not measured device memory.").toList

/-- The device of the loaded engine; a mock counts as none. -/
def liveDevice (device : Option Str) : Option Str := device.filter (· ≠ "MOCK".toList)

/-- `describe_context` -/
def describeContext (cfg : ModelConfig) (metadata : Metadata) (device : Option Str)
    (mock : Bool) : List (Str × WireValue) :=
  let live := liveDevice device
  let applies := live.isNone || kvPrecisionDeviceSupported live
  let limit := modelLimit metadata
  let bounds := contextBounds cfg metadata
  [("model_id".toList, .str cfg.id),
    ("name".toList, .str cfg.name),
    ("configurable".toList, .bool (isConfigurable cfg)),
    ("minimum_context_tokens".toList, .int bounds.1),
    ("maximum_context_tokens".toList, .int bounds.2),
    ("custom_values_allowed".toList, .bool (isConfigurable cfg)),
    ("presets".toList, .arr (contextPresets cfg metadata live)),
    ("model_max_context_tokens".toList, optional .int (limit.map fun _ => bounds.2)),
    ("configured_context_tokens".toList, .int cfg.maxContextLen),
    ("recommended_context_tokens".toList, .int cfg.recommendedOrMax),
    ("prompt_budget_tokens".toList, .int cfg.maxPromptLen),
    ("reserved_output_tokens".toList, .int cfg.maxOutputTokens),
    ("model_architecture_limit_tokens".toList, optional .int limit),
    ("architecture_evidence".toList,
      .str (if limit.isSome then "local config.json" else "unavailable").toList),
    ("runtime_status".toList,
      .str (if mock || device = some "MOCK".toList then "mock-unverified"
        else "hardware-unverified").toList),
    ("options".toList, .arr (contextOptions cfg metadata live)),
    ("kv_cache_precision".toList, .str (precisionText cfg.kvCachePrecision)),
    ("kv_cache_precision_options".toList, .arr (kvCachePrecisionOptions live)),
    ("kv_cache_precision_applies".toList, .bool applies),
    ("kv_cache_precision_note".toList, .str (precisionNote applies)),
    ("context_guidance".toList, .str (contextGuidance cfg metadata live)),
    ("explanation".toList, .str explanation)]

/-! ### The host memory -/

/-- `fit_guidance` -/
inductive Fit where
  | unverifiedMemory
  | memoryConstrained
  | estimatedHeadroom
deriving DecidableEq

def Fit.text : Fit → Str
  | .unverifiedMemory => "unverified-memory".toList
  | .memoryConstrained => "memory-constrained".toList
  | .estimatedHeadroom => "estimated-headroom".toList

/-- What the manager adds to an option, by its tokens. -/
structure HostMemory where
  ram : Int → Option ℚ
  fit : Int → Fit
  ram_nonneg : ∀ tokens size, ram tokens = some size → 0 ≤ size

/-! ### Reading -/

namespace WireValue

/-- `TryGetProperty` -/
def property (key : Str) : WireValue → Option WireValue
  | .obj fields => fields.lookup key
  | _ => none

/-- `ReadString` -/
def readString (key : Str) (v : WireValue) : Str :=
  match v.property key with
  | some (.str s) => s
  | _ => []

def isTrue (key : Str) (v : WireValue) : Bool :=
  match v.property key with
  | some (.bool b) => b
  | _ => false

/-- An option with the host memory for its tokens. -/
def addHost (host : HostMemory) : WireValue → WireValue
  | .obj fields =>
    match fields.lookup "tokens".toList with
    | some (.int tokens) =>
      .obj (fields ++
        [("estimated_host_ram_gib".toList, optional .double (host.ram tokens)),
          ("fit_guidance".toList, .str (host.fit tokens).text)])
    | _ => .obj fields
  | v => v

def mapItems (f : WireValue → WireValue) : WireValue → WireValue
  | .arr items => .arr (items.map f)
  | v => v

end WireValue

/-- The document with the host memory in each of its options. -/
def HostMemory.complete (host : HostMemory) (fields : List (Str × WireValue)) : WireValue :=
  .obj (fields.map fun field =>
    (field.1, if field.1 = "options".toList then field.2.mapItems (WireValue.addHost host)
      else field.2))

/-! ### The client -/

/-- The errors of `ParseContext`. -/
inductive ParseError where
  | model
  | budget
  | disagree
  | limit
  | options
  | classification
  | estimate
  | hostMemory
  | guidance
  | current
  | precision
deriving DecidableEq, Repr

def ParseError.message : ParseError → String
  | .model => "Context response does not match the selected model."
  | .budget => "Invalid context budget response."
  | .disagree => "Context and output budgets disagree."
  | .limit => "Invalid model architecture limit."
  | .options => "Invalid context options."
  | .classification => "Unknown context recommendation classification."
  | .estimate => "Invalid KV-cache estimate."
  | .hostMemory => "Invalid host memory estimate."
  | .guidance => "Unknown memory guidance classification."
  | .current => "Current context is not among the supported options."
  | .precision => "Unknown KV cache precision."

structure ContextOption where
  tokens : Int
  classification : Str
  kvEstimateGib : Option ℚ
  estimatedHostRamGib : Option ℚ
  fitGuidance : Str

structure KvPrecisionOption where
  value : Str
  label : Str
  available : Bool

structure Configuration where
  modelId : Str
  current : Int
  recommended : Int
  promptBudget : Int
  outputReserve : Int
  architectureLimit : Option Int
  loaded : Bool
  device : Option Str
  options : List ContextOption
  kvPrecision : Str
  kvApplies : Bool
  kvOptions : Option (List KvPrecisionOption)
  guidance : Str
  kvNote : Str

def require (e : ParseError) (b : Bool) : Except ParseError Unit := if b then .ok () else .error e

/-- `Budget` -/
def budget (root : WireValue) (key : Str) (low high : Int) : Except ParseError Int :=
  match root.property key with
  | some (.int size) => if low ≤ size ∧ size ≤ high then .ok size else .error .budget
  | _ => .error .budget

/-- A number that may be missing, and must not be negative; an integer is rounded. -/
def readEstimate (e : ParseError) (root : WireValue) (key : Str) :
    Except ParseError (Option ℚ) :=
  match root.property key with
  | some (.double x) => if 0 ≤ x then .ok (some x) else .error e
  | some (.int n) =>
    if 0 ≤ n ∧ Binary64.round n < 2 ^ Binary64.maxExponent then .ok (some (Binary64.round n))
    else .error e
  | _ => .ok none

/-- The four budgets, which are read first. -/
structure Budgets where
  current : Int
  recommended : Int
  prompt : Int
  output : Int

def parseBudgets (root : WireValue) : Except ParseError Budgets := do
  let current ← budget root "configured_context_tokens".toList 128 262144
  let recommended ← budget root "recommended_context_tokens".toList 128 262144
  let prompt ← budget root "prompt_budget_tokens".toList 1 262144
  let output ← budget root "reserved_output_tokens".toList 1 65536
  require .disagree (prompt + output = current)
  return { current, recommended, prompt, output }

def parseArchitecture (root : WireValue) : Except ParseError (Option Int) :=
  match root.property "model_architecture_limit_tokens".toList with
  | some (.int limit) =>
    if 128 ≤ limit ∧ limit ≤ 262144 then .ok (some limit) else .error .limit
  | some (.double _) => .error .limit
  | _ => .ok none

def classifications : List Str :=
  ["recommended".toList, "lower-memory".toList, "eligible-unverified".toList,
    "existing-unverified".toList]

def fits : List Str :=
  ["unverified-memory".toList, "memory-constrained".toList, "estimated-headroom".toList]

def parseOption (option : WireValue) : Except ParseError ContextOption := do
  let tokens ← budget option "tokens".toList 128 262144
  let classification := option.readString "classification".toList
  require .classification (classifications.contains classification)
  let kvEstimateGib ← readEstimate .estimate option "fp16_kv_cache_gib_estimate".toList
  let estimatedHostRamGib ← readEstimate .hostMemory option "estimated_host_ram_gib".toList
  let fitGuidance := option.readString "fit_guidance".toList
  require .guidance (fits.contains fitGuidance)
  return { tokens, classification, kvEstimateGib, estimatedHostRamGib, fitGuidance }

/-- An option whose tokens are listed already is passed over. -/
def addOption (choices : List ContextOption) (option : ContextOption) : List ContextOption :=
  if choices.any fun item => item.tokens = option.tokens then choices else choices ++ [option]

def parseOptions (root : WireValue) (current : Int) : Except ParseError (List ContextOption) :=
  match root.property "options".toList with
  | some (.arr items) => do
    require .options (items.length ≤ 32)
    let options ← items.mapM parseOption
    let choices := options.foldl addOption []
    require .current (choices.any fun item => item.tokens = current)
    return choices
  | _ => .error .options

/-- `KvPrecisions` -/
def kvPrecisions : List Str := kvNames.map precisionText

/-- An older engine does not send the field. -/
def parsePrecision (root : WireValue) : Except ParseError Str := do
  let text := root.readString "kv_cache_precision".toList
  let precision := if text.isEmpty then "auto".toList else text
  require .precision (kvPrecisions.contains precision)
  return precision

/-- `KvLabel` -/
def labelOf (value : Str) : Str := kvLabel ((kvNames.find? fun p => precisionText p = value).join)

/-- The length in UTF-16 units. -/
def unitLength (s : Str) : Nat := (s.map fun c => if c.toNat < 0x10000 then 1 else 2).sum

/-- A row of the precision options; unknown and repeated ones are passed over. -/
def addRow (rows : List KvPrecisionOption) (row : WireValue) : List KvPrecisionOption :=
  let value := row.readString "value".toList
  let label := row.readString "label".toList
  if !kvPrecisions.contains value || (rows.any fun item => item.value = value) then rows
  else
    rows ++ [
      { value
        label := if 0 < unitLength label ∧ unitLength label ≤ 80 then label else labelOf value
        available := row.isTrue "available".toList }]

def parseRows (root : WireValue) : Option (List KvPrecisionOption) :=
  match root.property "kv_cache_precision_options".toList with
  | some (.arr rows) => if rows.length ≤ 8 then some (rows.foldl addRow []) else none
  | _ => none

/-- `Text` -/
def readText (root : WireValue) (key : Str) : Str :=
  let value := root.readString key
  if unitLength value ≤ 1024 then value else []

/-- `ParseContext` -/
def parseContext (root : WireValue) (modelId : Str) : Except ParseError Configuration := do
  require .model (root.readString "model_id".toList = modelId)
  let budgets ← parseBudgets root
  let architectureLimit ← parseArchitecture root
  let options ← parseOptions root budgets.current
  let kvPrecision ← parsePrecision root
  let device := root.readString "active_device".toList
  return {
    modelId
    current := budgets.current
    recommended := budgets.recommended
    promptBudget := budgets.prompt
    outputReserve := budgets.output
    architectureLimit
    loaded := root.isTrue "loaded".toList
    device := if unitLength device ≤ 64 then some device else none
    options
    kvPrecision
    kvApplies :=
      match root.property "kv_cache_precision_applies".toList with
      | some (.bool false) => false
      | _ => true
    kvOptions := parseRows root
    guidance := readText root "context_guidance".toList
    kvNote := readText root "kv_cache_precision_note".toList }

/-! ### The editor -/

namespace Configuration

/-- `UpperBound` -/
def upperBound (context : Configuration) : Int :=
  min (context.architectureLimit.getD context.recommended) 262144

/-- `LowerBound` -/
def lowerBound (context : Configuration) : Int := max 128 (context.outputReserve + 65)

/-- `IsTrial` -/
def isTrial (context : Configuration) (tokens : Int) : Bool := context.recommended < tokens

end Configuration

structure ContextPreset where
  tokens : Int
  trial : Bool
  recommended : Bool
  current : Bool
  modelMax : Bool

/-- The sizes of `Presets`. -/
def editorSizes (context : Configuration) : List Int :=
  let lower := context.lowerBound
  let upper := context.upperBound
  let values := standardPresets.filter fun value => lower ≤ value ∧ value ≤ upper
  let verifiedMax := context.architectureLimit.isSome && decide (lower ≤ upper)
  (if verifiedMax && !values.contains upper then values ++ [upper] else values).mergeSort (· ≤ ·)

/-- `Presets` -/
def editorPresets (context : Configuration) : List ContextPreset :=
  let upper := context.upperBound
  let verifiedMax := context.architectureLimit.isSome && decide (context.lowerBound ≤ upper)
  (editorSizes context).map fun value =>
    { tokens := value
      trial := context.isTrial value
      recommended := value = context.recommended
      current := value = context.current
      modelMax := verifiedMax && decide (value = upper) }

/-- `ContextChoice`; the message is that of a refusal. -/
structure ContextChoice where
  valid : Bool
  tokens : Int
  trial : Bool
  message : Option Str

/-- `Validate`; no number, or none that is finite, is `none`. -/
def validate (context : Configuration) (requested : Option ℚ) : ContextChoice :=
  let lower := context.lowerBound
  let upper := context.upperBound
  match requested.filter fun raw : ℚ => raw = ⌊raw⌋ ∧ 128 ≤ raw ∧ raw ≤ 262144 with
  | none =>
    ⟨false, 0, false, some ("Enter a whole number between ".toList ++ grouped lower ++
      " and ".toList ++ grouped upper ++ ".".toList)⟩
  | some raw =>
    let tokens := ⌊raw⌋
    if tokens < lower then
      ⟨false, tokens, false, some ("Leave room for the prompt: use at least ".toList ++
        grouped lower ++ " tokens (output reserve is ".toList ++ grouped context.outputReserve ++
        ").".toList)⟩
    else if upper < tokens then
      ⟨false, tokens, false, some (if context.architectureLimit.isNone then
        "Without verified model metadata the maximum is the recommended ".toList ++
          grouped upper ++ " tokens.".toList
        else "This model supports at most ".toList ++ grouped upper ++ " tokens.".toList)⟩
    else ⟨true, tokens, context.isTrial tokens, none⟩

/-! ### What the server writes -/

variable {cfg : ModelConfig} {metadata : Metadata} {device : Option Str} {mock : Bool}
  {host : HostMemory}

theorem accepts_iff {value : Int} :
    accepts cfg metadata value = true ↔
      ContextConfiguration.validateContext cfg (.int value) metadata = .ok () := by
  rw [accepts]
  split
  · next h => simp [h]
  · next h => simp [h]

theorem mem_sortedSet {values : List Int} {value : Int} :
    value ∈ sortedSet values ↔ value ∈ values := by
  rw [sortedSet, List.mem_mergeSort, List.mem_dedup]

theorem length_sortedSet_le (values : List Int) : (sortedSet values).length ≤ values.length := by
  rw [sortedSet, List.length_mergeSort]
  exact (List.dedup_sublist values).length_le

theorem positiveInt_pos {value : Option JsonValue} {n : Int} (h : positiveInt value = some n) :
    0 < n := by
  unfold positiveInt at h
  split at h
  · split at h
    · next hrange =>
      obtain rfl := Option.some.inj h
      exact hrange.1
    · cases h
  · cases h

theorem roundThousandths_nonneg {x : ℚ} (h : 0 ≤ x) : 0 ≤ roundThousandths x := by
  apply Binary64.round_nonneg
  have hcast : (0 : ℚ) ≤ (Binary64.roundHalfEven (x * 1000) : ℚ) := by
    exact_mod_cast Binary64.roundHalfEven_nonneg (by linarith)
  positivity

theorem keyValueHeads_nonneg {n : Int} (h : keyValueHeads metadata = some n) : 0 ≤ n := by
  rw [keyValueHeads, Option.orElse_eq_orElse, Option.orElse_eq_or, Option.or_eq_some_iff] at h
  rcases h with h | ⟨-, h⟩
  · exact (positiveInt_pos h).le
  · exact (positiveInt_pos h).le

theorem headDim_nonneg {n : Int} (h : headDim metadata = some n) : 0 ≤ n := by
  rw [headDim, Option.orElse_eq_orElse, Option.orElse_eq_or, Option.or_eq_some_iff] at h
  rcases h with h | ⟨-, h⟩
  · exact (positiveInt_pos h).le
  · obtain ⟨hidden, hhidden, h⟩ := Option.bind_eq_some_iff.mp h
    obtain ⟨heads, hheads, h⟩ := Option.bind_eq_some_iff.mp h
    split at h
    · obtain rfl := Option.some.inj h
      exact Int.ediv_nonneg (positiveInt_pos hhidden).le (positiveInt_pos hheads).le
    · cases h

theorem kvCacheGib_nonneg {context : Int} {precision : Option KvPrecision} {x : ℚ}
    (hcontext : 0 ≤ context) (h : kvCacheGib metadata context precision = some x) : 0 ≤ x := by
  obtain ⟨layers, hlayers, h⟩ := Option.bind_eq_some_iff.mp h
  obtain ⟨heads, hheads, h⟩ := Option.bind_eq_some_iff.mp h
  obtain ⟨dim, hdim, h⟩ := Option.bind_eq_some_iff.mp h
  obtain rfl := Option.some.inj h
  have hlayers := (positiveInt_pos hlayers).le
  have hheads := keyValueHeads_nonneg hheads
  have hdim := headDim_nonneg hdim
  have helements : (0 : ℚ) ≤ ((context * 2 * layers * heads * dim : Int) : ℚ) := by
    exact_mod_cast (by positivity : (0 : Int) ≤ context * 2 * layers * heads * dim)
  have hbytes : 0 ≤ kvBytes (precision.getD .f16) := by
    cases precision.getD .f16 <;> norm_num [kvBytes]
  apply roundThousandths_nonneg
  apply Binary64.round_nonneg
  have hproduct := Binary64.round_nonneg (mul_nonneg (Binary64.round_nonneg helements) hbytes)
  positivity

/-- The classification is one that the client knows. -/
theorem classify_mem (value : Int) : classify cfg value ∈ classifications := by
  unfold classify
  split
  · simp [classifications]
  · split
    · simp [classifications]
    · simp [classifications]

/-- A row that the client can read. -/
structure RowChecked (row : Int × Str) : Prop where
  tokens : 128 ≤ row.1 ∧ row.1 ≤ 262144
  classification : row.2 ∈ classifications

theorem row_checked_of_accepts {value : Int} (h : accepts cfg metadata value = true) :
    RowChecked (value, classify cfg value) where
  tokens := by
    obtain ⟨tokens, hint, -, hrange, -⟩ := validateContext_eq_ok.mp (accepts_iff.mp h)
    obtain rfl : value = tokens := by simpa using hint
    exact hrange
  classification := classify_mem value

/-- What the rows of the options are: readable, few, and the saved context among them. -/
theorem optionRows_spec (hcontext : 128 ≤ cfg.maxContextLen ∧ cfg.maxContextLen ≤ maxContext)
    (hbackend : cfg.backend ≠ .embeddings) :
    (∀ row ∈ optionRows cfg metadata, RowChecked row) ∧
      (optionRows cfg metadata).length ≤ 14 ∧
      ∃ row ∈ optionRows cfg metadata, row.1 = cfg.maxContextLen := by
  have hrows : ∀ row ∈ ((candidates cfg metadata).filter (accepts cfg metadata)).map
      (fun value => (value, classify cfg value)), RowChecked row := by
    intro row hrow
    obtain ⟨value, hvalue, rfl⟩ := List.mem_map.mp hrow
    exact row_checked_of_accepts (List.mem_filter.mp hvalue).2
  have hlength : (((candidates cfg metadata).filter (accepts cfg metadata)).map
      (fun value => (value, classify cfg value))).length ≤ 13 := by
    rw [List.length_map]
    exact (List.length_filter_le _ _).trans (length_sortedSet_le _)
  have hsaved : RowChecked (cfg.maxContextLen, "existing-unverified".toList) :=
    ⟨hcontext, by simp [classifications]⟩
  unfold optionRows
  dsimp only
  split
  · -- the saved context is added
    refine ⟨fun row hrow => ?_, ?_, ?_⟩
    · rw [List.mem_mergeSort, List.mem_append, List.mem_singleton] at hrow
      rcases hrow with hrow | rfl
      · exact hrows row hrow
      · exact hsaved
    · rw [List.length_mergeSort, List.length_append, List.length_singleton]
      omega
    · exact ⟨_, List.mem_mergeSort.mpr (List.mem_append_right _ (List.mem_singleton.mpr rfl)), rfl⟩
  · next hlisted =>
    refine ⟨hrows, by omega, ?_⟩
    have hany := (not_and.mp hlisted) hbackend
    rw [Bool.not_eq_false, List.any_eq_true] at hany
    obtain ⟨row, hrow, heq⟩ := hany
    exact ⟨row, hrow, of_decide_eq_true heq⟩

/-! ### What the client reads -/

theorem require_eq_ok {e : ParseError} {b : Bool} {u : Unit} :
    require e b = .ok u ↔ b = true := by
  cases b <;> simp [require]

theorem budget_eq_ok {root : WireValue} {key : Str} {low high size n : Int}
    (h : root.property key = some (.int size)) :
    budget root key low high = .ok n ↔ n = size ∧ low ≤ size ∧ size ≤ high := by
  rw [budget, h]
  dsimp only
  split
  · next hrange =>
    constructor
    · intro hn
      exact ⟨(Except.ok.inj hn).symm, hrange⟩
    · rintro ⟨rfl, -⟩
      rfl
  · next hrange =>
    constructor
    · intro hn
      cases hn
    · rintro ⟨-, hrange'⟩
      exact absurd hrange' hrange

theorem readEstimate_optional {e : ParseError} {root : WireValue} {key : Str} {x : Option ℚ}
    (h : root.property key = some (optional .double x)) (hx : ∀ y, x = some y → 0 ≤ y) :
    readEstimate e root key = .ok x := by
  rw [readEstimate, h]
  cases x with
  | none => rfl
  | some y => exact if_pos (hx y rfl)

theorem readEstimate_ram {e : ParseError} {root : WireValue} {key : Str} {tokens : Int}
    (h : root.property key = some (optional .double (host.ram tokens))) :
    readEstimate e root key = .ok (host.ram tokens) :=
  readEstimate_optional h (host.ram_nonneg tokens)

theorem fit_mem (fit : Fit) : fit.text ∈ fits := by
  cases fit with
  | unverifiedMemory => exact List.mem_cons_self
  | memoryConstrained => exact List.mem_cons_of_mem _ List.mem_cons_self
  | estimatedHeadroom => exact List.mem_cons_of_mem _ (List.mem_cons_of_mem _ List.mem_cons_self)

/-- The option as it is sent. -/
def sentOption (cfg : ModelConfig) (metadata : Metadata) (device : Option Str) (host : HostMemory)
    (row : Int × Str) : WireValue :=
  WireValue.addHost host
    (.obj ([("tokens".toList, .int row.1), ("classification".toList, .str row.2)] ++
      kvEstimates cfg metadata row.1 device))

/-- The option as the client keeps it. -/
def keptOption (metadata : Metadata) (host : HostMemory) (row : Int × Str) : ContextOption where
  tokens := row.1
  classification := row.2
  kvEstimateGib := kvCacheGib metadata row.1 (some .f16)
  estimatedHostRamGib := host.ram row.1
  fitGuidance := (host.fit row.1).text

theorem parseOption_sent {row : Int × Str} (h : RowChecked row) :
    parseOption (sentOption cfg metadata device host row) = .ok (keptOption metadata host row) := by
  have htokens : budget (sentOption cfg metadata device host row) "tokens".toList 128 262144 =
      .ok row.1 := (budget_eq_ok rfl).mpr ⟨rfl, h.tokens⟩
  have hclass : (sentOption cfg metadata device host row).readString "classification".toList =
      row.2 := rfl
  have hestimate : readEstimate .estimate (sentOption cfg metadata device host row)
      "fp16_kv_cache_gib_estimate".toList = .ok (kvCacheGib metadata row.1 (some .f16)) :=
    readEstimate_optional rfl fun x hx => kvCacheGib_nonneg (by have := h.tokens; omega) hx
  have hram : readEstimate .hostMemory (sentOption cfg metadata device host row)
      "estimated_host_ram_gib".toList = .ok (host.ram row.1) := readEstimate_ram rfl
  have hfit : (sentOption cfg metadata device host row).readString "fit_guidance".toList =
      (host.fit row.1).text := rfl
  apply Accepted.bind_eq_ok.mpr
  refine ⟨_, htokens, ?_⟩
  apply Accepted.bind_eq_ok.mpr
  refine ⟨(), require_eq_ok.mpr ?_, ?_⟩
  · rw [hclass, List.contains_iff_mem]
    exact h.classification
  apply Accepted.bind_eq_ok.mpr
  refine ⟨_, hestimate, ?_⟩
  apply Accepted.bind_eq_ok.mpr
  refine ⟨_, hram, ?_⟩
  apply Accepted.bind_eq_ok.mpr
  refine ⟨(), require_eq_ok.mpr ?_, rfl⟩
  rw [hfit, List.contains_iff_mem]
  exact fit_mem _

/-- The document as it is sent. -/
def sent (cfg : ModelConfig) (metadata : Metadata) (device : Option Str) (mock : Bool)
    (host : HostMemory) : WireValue :=
  host.complete (describeContext cfg metadata device mock)

theorem any_addOption (choices : List ContextOption) (option : ContextOption) (tokens : Int) :
    ((addOption choices option).any fun item => item.tokens = tokens) =
      ((choices.any fun item => item.tokens = tokens) || decide (option.tokens = tokens)) := by
  unfold addOption
  split
  · next hlisted =>
    by_cases heq : option.tokens = tokens
    · rw [heq] at hlisted
      rw [hlisted, Bool.true_or]
    · rw [decide_eq_false heq, Bool.or_false]
  · rw [List.any_append, List.any_cons, List.any_nil, Bool.or_false]

/-- Passing repeated options over loses no tokens. -/
theorem any_foldl_addOption (options choices : List ContextOption) (tokens : Int) :
    ((options.foldl addOption choices).any fun item => item.tokens = tokens) =
      ((choices ++ options).any fun item => item.tokens = tokens) := by
  induction options generalizing choices with
  | nil => rw [List.foldl_nil, List.append_nil]
  | cons option rest ih =>
      rw [List.foldl_cons, ih, List.any_append, any_addOption, List.any_append, List.any_cons,
        Bool.or_assoc]

theorem parseOptions_sent (hcontext : 128 ≤ cfg.maxContextLen ∧ cfg.maxContextLen ≤ maxContext)
    (hbackend : cfg.backend ≠ .embeddings) :
    ∃ choices, parseOptions (sent cfg metadata device mock host) cfg.maxContextLen =
      .ok choices := by
  have hrows : (∀ row ∈ optionRows cfg metadata, RowChecked row) ∧
      (optionRows cfg metadata).length ≤ 14 ∧
      ∃ row ∈ optionRows cfg metadata, row.1 = cfg.maxContextLen :=
    optionRows_spec hcontext hbackend
  obtain ⟨hchecked, hlength, row, hrow, hsaved⟩ := hrows
  have hoptions : (sent cfg metadata device mock host).property "options".toList =
      some (.arr ((contextOptions cfg metadata (liveDevice device)).map
        (WireValue.addHost host))) := rfl
  have hitems : (contextOptions cfg metadata (liveDevice device)).map (WireValue.addHost host) =
      (optionRows cfg metadata).map (sentOption cfg metadata (liveDevice device) host) := by
    rw [contextOptions, List.map_map]
    rfl
  have hread : ((optionRows cfg metadata).map
      (sentOption cfg metadata (liveDevice device) host)).mapM parseOption =
      .ok ((optionRows cfg metadata).map (keptOption metadata host)) := by
    apply Accepted.mapM_eq_ok.mpr
    rw [List.forall₂_map_left_iff, List.forall₂_map_right_iff, List.forall₂_same]
    exact fun row hrow => parseOption_sent (hchecked row hrow)
  rw [parseOptions, hoptions, hitems]
  refine ⟨((optionRows cfg metadata).map (keptOption metadata host)).foldl addOption [],
    Accepted.bind_eq_ok.mpr ⟨(), require_eq_ok.mpr ?_, ?_⟩⟩
  · rw [List.length_map]
    exact decide_eq_true (by omega)
  · refine Accepted.bind_eq_ok.mpr ⟨_, hread, ?_⟩
    refine Accepted.bind_eq_ok.mpr ⟨(), require_eq_ok.mpr ?_, rfl⟩
    rw [any_foldl_addOption, List.nil_append, List.any_eq_true]
    exact ⟨keptOption metadata host row, List.mem_map_of_mem hrow, decide_eq_true hsaved⟩

theorem parsePrecision_sent :
    ∃ text, parsePrecision (sent cfg metadata device mock host) = .ok text := by
  have htext : (sent cfg metadata device mock host).readString "kv_cache_precision".toList =
      precisionText cfg.kvCachePrecision := rfl
  have hmem : precisionText cfg.kvCachePrecision ∈ kvPrecisions := by
    apply List.mem_map_of_mem
    rcases cfg.kvCachePrecision with - | - | - | - <;> simp [kvNames]
  have hne : (precisionText cfg.kvCachePrecision).isEmpty = false := by
    rcases cfg.kvCachePrecision with - | - | - | - <;> rfl
  refine ⟨precisionText cfg.kvCachePrecision, ?_⟩
  rw [parsePrecision, htext, hne]
  exact Accepted.bind_eq_ok.mpr
    ⟨(), require_eq_ok.mpr (List.contains_iff_mem.mpr hmem), rfl⟩

theorem parseBudgets_sent {budgets : Budgets} :
    parseBudgets (sent cfg metadata device mock host) = .ok budgets ↔
      budgets = ⟨cfg.maxContextLen, cfg.recommendedOrMax, cfg.maxPromptLen, cfg.maxOutputTokens⟩ ∧
        (128 ≤ cfg.maxContextLen ∧ cfg.maxContextLen ≤ 262144) ∧
        (128 ≤ cfg.recommendedOrMax ∧ cfg.recommendedOrMax ≤ 262144) ∧
        (1 ≤ cfg.maxPromptLen ∧ cfg.maxPromptLen ≤ 262144) ∧
        (1 ≤ cfg.maxOutputTokens ∧ cfg.maxOutputTokens ≤ 65536) ∧
        cfg.maxPromptLen + cfg.maxOutputTokens = cfg.maxContextLen := by
  have hcurrent : (sent cfg metadata device mock host).property
      "configured_context_tokens".toList = some (.int cfg.maxContextLen) := rfl
  have hrecommended : (sent cfg metadata device mock host).property
      "recommended_context_tokens".toList = some (.int cfg.recommendedOrMax) := rfl
  have hprompt : (sent cfg metadata device mock host).property
      "prompt_budget_tokens".toList = some (.int cfg.maxPromptLen) := rfl
  have houtput : (sent cfg metadata device mock host).property
      "reserved_output_tokens".toList = some (.int cfg.maxOutputTokens) := rfl
  constructor
  · intro h
    obtain ⟨current, hc, h⟩ := Accepted.bind_eq_ok.mp h
    obtain ⟨recommended, hr, h⟩ := Accepted.bind_eq_ok.mp h
    obtain ⟨prompt, hp, h⟩ := Accepted.bind_eq_ok.mp h
    obtain ⟨output, ho, h⟩ := Accepted.bind_eq_ok.mp h
    obtain ⟨_, hs, h⟩ := Accepted.bind_eq_ok.mp h
    obtain ⟨hc, hcurrent⟩ := (budget_eq_ok hcurrent).mp hc
    obtain ⟨hr, hrecommended⟩ := (budget_eq_ok hrecommended).mp hr
    obtain ⟨hp, hprompt⟩ := (budget_eq_ok hprompt).mp hp
    obtain ⟨ho, houtput⟩ := (budget_eq_ok houtput).mp ho
    subst hc hr hp ho
    exact ⟨(Except.ok.inj h).symm, hcurrent, hrecommended, hprompt, houtput,
      of_decide_eq_true (require_eq_ok.mp hs)⟩
  · rintro ⟨rfl, hc, hr, hp, ho, hsum⟩
    refine Accepted.bind_eq_ok.mpr ⟨_, (budget_eq_ok hcurrent).mpr ⟨rfl, hc⟩, ?_⟩
    refine Accepted.bind_eq_ok.mpr ⟨_, (budget_eq_ok hrecommended).mpr ⟨rfl, hr⟩, ?_⟩
    refine Accepted.bind_eq_ok.mpr ⟨_, (budget_eq_ok hprompt).mpr ⟨rfl, hp⟩, ?_⟩
    refine Accepted.bind_eq_ok.mpr ⟨_, (budget_eq_ok houtput).mpr ⟨rfl, ho⟩, ?_⟩
    exact Accepted.bind_eq_ok.mpr ⟨(), require_eq_ok.mpr (decide_eq_true hsum), rfl⟩

/-- A limit below the smallest context is refused. -/
theorem parseArchitecture_sent {limit : Option Int} :
    parseArchitecture (sent cfg metadata device mock host) = .ok limit ↔
      limit = modelLimit metadata ∧ ∀ n, modelLimit metadata = some n → 128 ≤ n := by
  have hlimit : (sent cfg metadata device mock host).property
      "model_architecture_limit_tokens".toList = some (optional .int (modelLimit metadata)) := rfl
  rw [parseArchitecture, hlimit]
  rcases hmodel : modelLimit metadata with - | n
  · simp only [optional]
    constructor
    · intro h
      exact ⟨(Except.ok.inj h).symm, nofun⟩
    · rintro ⟨rfl, -⟩
      rfl
  · have hmax := modelLimit_le_maxContext hmodel
    simp only [optional]
    split
    · next hrange =>
      constructor
      · intro h
        refine ⟨(Except.ok.inj h).symm, fun m hm => ?_⟩
        obtain rfl := Option.some.inj hm
        exact hrange.1
      · rintro ⟨rfl, -⟩
        rfl
    · next hrange =>
      constructor
      · intro h
        cases h
      · rintro ⟨-, hlow⟩
        exact absurd ⟨hlow n rfl, hmax⟩ hrange

/-- What the client makes of the document: it refuses it, or reads what bounds the context. -/
theorem parseContext_sent {context : Configuration}
    (h : parseContext (sent cfg metadata device mock host) cfg.id = .ok context) :
    context.recommended = cfg.recommendedOrMax ∧ context.outputReserve = cfg.maxOutputTokens ∧
      context.architectureLimit = modelLimit metadata ∧
      (∀ n, modelLimit metadata = some n → 128 ≤ n) ∧
      cfg.maxPromptLen + cfg.maxOutputTokens = cfg.maxContextLen := by
  obtain ⟨-, -, h⟩ := Accepted.bind_eq_ok.mp h
  obtain ⟨budgets, hbudgets, h⟩ := Accepted.bind_eq_ok.mp h
  obtain ⟨limit, hlimit, h⟩ := Accepted.bind_eq_ok.mp h
  obtain ⟨choices, -, h⟩ := Accepted.bind_eq_ok.mp h
  obtain ⟨precision, -, h⟩ := Accepted.bind_eq_ok.mp h
  obtain rfl := Except.ok.inj h
  obtain ⟨rfl, -, -, -, -, hsum⟩ := parseBudgets_sent.mp hbudgets
  obtain ⟨rfl, hlow⟩ := parseArchitecture_sent.mp hlimit
  exact ⟨rfl, rfl, rfl, hlow, hsum⟩

theorem parseContext_sent_of (hcanonical : cfg.Canonical) (hbackend : cfg.backend ≠ .embeddings)
    (hlow : ∀ n, modelLimit metadata = some n → 128 ≤ n)
    (hsum : cfg.maxPromptLen + cfg.maxOutputTokens = cfg.maxContextLen)
    (houtput : 1 ≤ cfg.maxOutputTokens) :
    ∃ context, parseContext (sent cfg metadata device mock host) cfg.id = .ok context := by
  have hcontext : 128 ≤ cfg.maxContextLen ∧ cfg.maxContextLen ≤ 262144 := hcanonical.context
  have hmax : cfg.maxOutputTokens ≤ 65536 := hcanonical.output.2
  obtain ⟨hrlow, hrhigh, -⟩ := hcanonical.recommendedOrMax
  have hprompt : 64 ≤ cfg.maxPromptLen := le_max_right _ _
  have hmodel : (sent cfg metadata device mock host).readString "model_id".toList = cfg.id := rfl
  have hoptions : ∃ choices, parseOptions (sent cfg metadata device mock host) cfg.maxContextLen =
      .ok choices := parseOptions_sent hcontext hbackend
  have hprecision : ∃ text, parsePrecision (sent cfg metadata device mock host) = .ok text :=
    parsePrecision_sent
  have hbudgets : parseBudgets (sent cfg metadata device mock host) = .ok
      ⟨cfg.maxContextLen, cfg.recommendedOrMax, cfg.maxPromptLen, cfg.maxOutputTokens⟩ :=
    parseBudgets_sent.mpr
      ⟨rfl, hcontext, ⟨hrlow, hrhigh⟩, ⟨by omega, by omega⟩, ⟨houtput, hmax⟩, hsum⟩
  have hlimit : parseArchitecture (sent cfg metadata device mock host) =
      .ok (modelLimit metadata) := parseArchitecture_sent.mpr ⟨rfl, hlow⟩
  obtain ⟨choices, hchoices⟩ := hoptions
  obtain ⟨text, htext⟩ := hprecision
  exact ⟨_, Accepted.bind_eq_ok.mpr ⟨(), require_eq_ok.mpr (decide_eq_true hmodel),
    Accepted.bind_eq_ok.mpr ⟨_, hbudgets, Accepted.bind_eq_ok.mpr ⟨_, hlimit,
      Accepted.bind_eq_ok.mpr ⟨_, hchoices, Accepted.bind_eq_ok.mpr ⟨_, htext, rfl⟩⟩⟩⟩⟩⟩

/-! ### The bounds -/

/-- Both sides accept the same values, those between the bounds, and offer no other preset. -/
structure Agrees (cfg : ModelConfig) (metadata : Metadata) (context : Configuration) : Prop where
  accepts : ∀ v : Int, (validate context (some v)).valid = true ↔
    ContextConfiguration.validateContext cfg (.int v) metadata = .ok ()
  bounds : ∀ v : Int, ContextConfiguration.validateContext cfg (.int v) metadata = .ok () ↔
    (contextBounds cfg metadata).1 ≤ v ∧ v ≤ (contextBounds cfg metadata).2
  offered : ∀ preset ∈ editorPresets context,
    ContextConfiguration.validateContext cfg (.int preset.tokens) metadata = .ok ()
  presets : ∀ v ∈ presetSizes cfg metadata,
    ContextConfiguration.validateContext cfg (.int v) metadata = .ok ()

theorem validate_valid {context : Configuration} {v : Int} :
    (validate context (some v)).valid = true ↔
      (128 ≤ v ∧ v ≤ 262144) ∧ context.lowerBound ≤ v ∧ v ≤ context.upperBound := by
  by_cases hrange : 128 ≤ v ∧ v ≤ 262144
  · have hwhole : (some (v : ℚ)).filter
        (fun raw : ℚ => raw = ⌊raw⌋ ∧ 128 ≤ raw ∧ raw ≤ 262144) = some (v : ℚ) := by
      rw [Option.filter_some, if_pos]
      rw [decide_eq_true_eq, Int.floor_intCast]
      exact ⟨rfl, by exact_mod_cast hrange.1, by exact_mod_cast hrange.2⟩
    simp only [validate, hwhole, Int.floor_intCast]
    split
    · simp
      omega
    · split
      · simp
        omega
      · simp
        omega
  · have hrefused : (some (v : ℚ)).filter
        (fun raw : ℚ => raw = ⌊raw⌋ ∧ 128 ≤ raw ∧ raw ≤ 262144) = none := by
      rw [Option.filter_some, if_neg]
      rw [decide_eq_true_eq]
      rintro ⟨-, hlow, hhigh⟩
      exact hrange ⟨by exact_mod_cast hlow, by exact_mod_cast hhigh⟩
    simp only [validate, hrefused]
    constructor
    · intro h
      cases h
    · exact fun h => absurd h.1 hrange

theorem mem_editorSizes {context : Configuration} {v : Int} (h : v ∈ editorSizes context) :
    context.lowerBound ≤ v ∧ v ≤ context.upperBound := by
  have hstandard : ∀ value ∈ standardPresets.filter
      (fun value => context.lowerBound ≤ value ∧ value ≤ context.upperBound),
      context.lowerBound ≤ value ∧ value ≤ context.upperBound := fun value hvalue =>
    of_decide_eq_true (List.mem_filter.mp hvalue).2
  unfold editorSizes at h
  rw [List.mem_mergeSort] at h
  split at h
  · next hverified =>
    rw [Bool.and_eq_true, Bool.and_eq_true, decide_eq_true_eq] at hverified
    rcases List.mem_append.mp h with h | h
    · exact hstandard v h
    · obtain rfl := List.mem_singleton.mp h
      exact ⟨hverified.1.2, le_rfl⟩
  · exact hstandard v h

theorem validateContext_iff_bounds (hbackend : cfg.backend ≠ .embeddings) {v : Int} :
    ContextConfiguration.validateContext cfg (.int v) metadata = .ok () ↔
      (contextBounds cfg metadata).1 ≤ v ∧ v ≤ (contextBounds cfg metadata).2 := by
  have hbounds : contextBounds cfg metadata =
      (max 128 (cfg.maxOutputTokens + 65), min (bound cfg metadata) maxContext) := rfl
  rw [validateContext_eq_ok, hbounds]
  dsimp only
  constructor
  · rintro ⟨tokens, hint, -, ⟨hlow, hhigh⟩, hreserve, hbound⟩
    obtain rfl : v = tokens := by simpa using hint
    exact ⟨max_le hlow (by omega), le_min hbound hhigh⟩
  · rintro ⟨hlow, hhigh⟩
    obtain ⟨hlow, hreserve⟩ := max_le_iff.mp hlow
    obtain ⟨hbound, hhigh⟩ := le_min_iff.mp hhigh
    exact ⟨v, rfl, hbackend, ⟨hlow, hhigh⟩, by omega, hbound⟩

/-- What the client has read gives it the bounds of the server. -/
theorem agrees_of_parsed (hbackend : cfg.backend ≠ .embeddings) {context : Configuration}
    (h : parseContext (sent cfg metadata device mock host) cfg.id = .ok context) :
    Agrees cfg metadata context := by
  obtain ⟨hrecommended, houtput, hlimit, -, -⟩ := parseContext_sent h
  have hlower : context.lowerBound = (contextBounds cfg metadata).1 := by
    show max 128 (context.outputReserve + 65) = max 128 (cfg.maxOutputTokens + 65)
    rw [houtput]
  have hupper : context.upperBound = (contextBounds cfg metadata).2 := by
    show min (context.architectureLimit.getD context.recommended) 262144 =
      min ((modelLimit metadata).getD cfg.recommendedOrMax) maxContext
    rw [hlimit, hrecommended]
    rfl
  refine ⟨fun v => ?_, fun v => validateContext_iff_bounds hbackend, fun preset hpreset => ?_,
    fun v hv => ?_⟩
  · rw [validate_valid, validateContext_iff_bounds hbackend, hlower, hupper]
    constructor
    · exact fun hv => hv.2
    · intro hv
      have hlow : 128 ≤ (contextBounds cfg metadata).1 := le_max_left _ _
      have hhigh : (contextBounds cfg metadata).2 ≤ 262144 := min_le_right _ _
      exact ⟨⟨by omega, by omega⟩, hv⟩
  · obtain ⟨v, hv, rfl⟩ := List.mem_map.mp hpreset
    rw [validateContext_iff_bounds hbackend, ← hlower, ← hupper]
    exact mem_editorSizes hv
  · unfold presetSizes at hv
    split at hv
    · exact accepts_iff.mp (List.mem_filter.mp hv).2
    · cases hv

/-! ### When the client reads the document -/

/-- **The two sides agree exactly if no limit in the metadata is below the smallest context, and
the saved context leaves 64 tokens to the prompt.** -/
theorem agreement_iff (modelId : Str) (raw : List (Str × JsonValue)) (cfg : ModelConfig)
    (hlisted : coerceEntry modelId raw = some cfg) (hbackend : cfg.backend ≠ .embeddings)
    (metadata : Metadata) (device : Option Str) (mock : Bool) (host : HostMemory) :
    (∃ context, parseContext (host.complete (describeContext cfg metadata device mock)) modelId =
        .ok context ∧ Agrees cfg metadata context) ↔
      (∀ key ∈ limitKeys, ∀ limit, Plausible metadata key limit → 128 ≤ limit) ∧
        cfg.maxOutputTokens + 64 ≤ cfg.maxContextLen := by
  obtain ⟨rfl, hcanonical⟩ := coerceEntry_canonical hlisted
  obtain ⟨-, houtput, -⟩ := generation_budget hlisted hbackend
  have hfloor : cfg.maxPromptLen + cfg.maxOutputTokens = cfg.maxContextLen ↔
      cfg.maxOutputTokens + 64 ≤ cfg.maxContextLen := by
    have hlength : cfg.maxPromptLen = max (cfg.maxContextLen - cfg.maxOutputTokens) 64 := rfl
    omega
  -- the smallest limit stands for all of them
  have hlimits : (∀ n, modelLimit metadata = some n → 128 ≤ n) ↔
      ∀ key ∈ limitKeys, ∀ limit, Plausible metadata key limit → 128 ≤ limit := by
    constructor
    · intro hlow key hkey limit hlimit
      rcases hmodel : modelLimit metadata with - | n
      · exact absurd hlimit (modelLimit_eq_none.mp hmodel key hkey limit)
      · exact (hlow n hmodel).trans ((modelLimit_eq_some.mp hmodel).2 key hkey limit hlimit)
    · intro hall n hmodel
      obtain ⟨⟨key, hkey, hlimit⟩, -⟩ := modelLimit_eq_some.mp hmodel
      exact hall key hkey n hlimit
  rw [← hlimits, ← hfloor]
  constructor
  · rintro ⟨context, hparsed, -⟩
    obtain ⟨-, -, -, hlow, hsum⟩ := parseContext_sent hparsed
    exact ⟨hlow, hsum⟩
  · rintro ⟨hlow, hsum⟩
    have hread : ∃ context, parseContext (sent cfg metadata device mock host) cfg.id =
        .ok context := parseContext_sent_of hcanonical hbackend hlow hsum houtput
    obtain ⟨context, hparsed⟩ := hread
    exact ⟨context, hparsed, agrees_of_parsed hbackend hparsed⟩

/-- The memory of the host is not known. -/
def unknownHost : HostMemory where
  ram := fun _ => none
  fit := fun _ => .unverifiedMemory
  ram_nonneg := nofun

/-- A model with the default limits and no metadata. -/
theorem agreement_iff_defaults :
    (∃ context, parseContext (unknownHost.complete
        (describeContext (limitsConfig 2048 512) [] none false)) "m".toList = .ok context ∧
          Agrees (limitsConfig 2048 512) [] context) ↔
      (∀ key ∈ limitKeys, ∀ limit, Plausible [] key limit → 128 ≤ limit) ∧
        (limitsConfig 2048 512).maxOutputTokens + 64 ≤ (limitsConfig 2048 512).maxContextLen :=
  agreement_iff "m".toList (limitsEntry 2048 512) (limitsConfig 2048 512) rfl (by decide) [] none
    false unknownHost

/-- With 2000 of 2048 tokens reserved the prompt budget is the floor, and the client refuses the
document. -/
theorem floorBudget_refused :
    ¬ ∀ (modelId : Str) (raw : List (Str × JsonValue)) (cfg : ModelConfig),
      coerceEntry modelId raw = some cfg → cfg.backend ≠ .embeddings →
        ∀ (metadata : Metadata) (device : Option Str) (mock : Bool) (host : HostMemory),
          ∃ context, parseContext (host.complete (describeContext cfg metadata device mock))
            modelId = .ok context ∧ Agrees cfg metadata context := by
  intro h
  obtain ⟨context, hparsed, -⟩ := h "m".toList (limitsEntry 2048 2000) (limitsConfig 2048 2000) rfl
    (by decide) [] none false unknownHost
  have hsum : (limitsConfig 2048 2000).maxPromptLen + (limitsConfig 2048 2000).maxOutputTokens =
      (limitsConfig 2048 2000).maxContextLen := (parseContext_sent hparsed).2.2.2.2
  exact absurd hsum (by decide)

end InferBridge.ContextAgreement
