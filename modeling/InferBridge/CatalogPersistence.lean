/-
InferBridge/CatalogPersistence.lean

What the server does to the catalog: registrations (the request schema of
app/openai_api.py and `register_model` of app/model_manager_core.py), context
configurations (app/context_configuration.py and `configure_context` of
app/model_manager.py) and the weight formats of finished conversions.

The three places validate and normalise with rules of their own.  The parser
of the catalog strips every text; the request schema does not.

Main results.  Along a run from a loaded catalog, a restart finds the
catalog as it is exactly if the registrations have no white space around
their texts (`lossless_iff_stripped`); a blank name makes a model vanish
(`lossless_lost`).
-/
import InferBridge.Catalog

namespace InferBridge

open Text

/-! ### Registration -/

/-- `ModelRegisterRequest` -/
structure RegisterRequest where
  modelId : Str
  name : Str
  sourceModel : Str
  backend : Backend := .genai
  weightFormat : WeightFormat := .int4
  recommendedDevice : Str := "NPU".toList
  maxContextLen : Int := 2048
  maxOutputTokens : Int := 512
  description : Option Str := none
  trustRemoteCode : Bool := false
deriving DecidableEq

/-- `^[A-Za-z0-9][A-Za-z0-9_.-]*$` -/
def matchesIdPattern : Str → Bool
  | [] => false
  | c :: rest =>
    isAlphanumeric c && rest.all fun c => isAlphanumeric c || c = '_' || c = '.' || c = '-'

def hasLength (minimum maximum : Nat) (s : Str) : Bool := minimum ≤ s.length && s.length ≤ maximum

/-- The request schema: the request with its device normalized, `none` where it is rejected. -/
def RegisterRequest.validate (req : RegisterRequest) : Option RegisterRequest :=
  if hasLength 1 128 req.modelId && matchesIdPattern req.modelId && hasLength 1 160 req.name &&
      hasLength 1 240 req.sourceModel && hasLength 1 64 req.recommendedDevice &&
      (128 ≤ req.maxContextLen && req.maxContextLen ≤ 262144) &&
      (0 ≤ req.maxOutputTokens && req.maxOutputTokens ≤ 65536) then
    match DeviceCheck.parseDeviceExpression req.recommendedDevice with
    | none => none
    | some e =>
      if validBudget req.backend req.maxContextLen req.maxOutputTokens then
        some { req with recommendedDevice := e.normalized }
      else none
  else none

def customDescription (sourceModel : Str) : Str :=
  "Custom model registered via Web UI. Source: ".toList ++ sourceModel

/-- `req.description or …` -/
def RegisterRequest.descriptionText (req : RegisterRequest) : Str :=
  match req.description with
  | none | some [] => customDescription req.sourceModel
  | some description => description

def RegisterRequest.config (req : RegisterRequest) : ModelConfig where
  id := req.modelId
  name := req.name
  description := req.descriptionText
  backend := req.backend
  modelPath := modelsRoot ++ req.modelId
  sourceModel := req.sourceModel
  weightFormat := req.weightFormat
  recommendedDevice := req.recommendedDevice
  maxContextLen := req.maxContextLen
  maxOutputTokens := req.maxOutputTokens
  trustRemoteCode := req.trustRemoteCode

/-- `register_model`; `none` is a `ValueError`. -/
def registerModel (catalog : Catalog) (req : RegisterRequest) : Option Catalog :=
  if (catalog.get? req.modelId).isSome then none else some (catalog.set req.modelId req.config)

/-! ### Context configuration -/

/-- A request to configure a context: without `tokens` the context stays, without `precision`
the precision does; `some none` is Auto. -/
structure ContextRequest where
  tokens : Option Int
  expected : Int
  precision : Option (Option KvPrecision) := none
deriving DecidableEq

/-- `cfg.recommended_context_len or cfg.max_context_len` -/
def ModelConfig.recommendedOrMax (cfg : ModelConfig) : Int :=
  match cfg.recommendedContextLen with
  | none | some 0 => cfg.maxContextLen
  | some value => value

/-- `validate_context`; `limit` is the bound of the model's architecture. -/
def validateContext (cfg : ModelConfig) (requested : Int) (limit : Option Int) : Bool :=
  decide (cfg.backend ≠ .embeddings) && (128 ≤ requested && requested ≤ maxContext) &&
    (cfg.maxOutputTokens + 64 < requested) &&
    match limit with
    | some limit => requested ≤ limit
    | none => requested ≤ cfg.recommendedOrMax

def ContextRequest.tokensFor (req : ContextRequest) (cfg : ModelConfig) : Int :=
  req.tokens.getD cfg.maxContextLen

def ContextRequest.precisionFor (req : ContextRequest) (cfg : ModelConfig) : Option KvPrecision :=
  req.precision.getD cfg.kvCachePrecision

/-- `updated` in `configure_context` -/
def ContextRequest.config (req : ContextRequest) (cfg : ModelConfig) : ModelConfig :=
  { cfg with
    maxContextLen := req.tokensFor cfg
    recommendedContextLen := some cfg.recommendedOrMax
    kvCachePrecision := req.precisionFor cfg }

/-- The checks that `configure_context` makes on the entry; `none` is an error. -/
def ContextRequest.accepts (req : ContextRequest) (cfg : ModelConfig) (limit : Option Int) : Bool :=
  decide (cfg.maxContextLen = req.expected) && validateContext cfg (req.tokensFor cfg) limit

/-- The request asks for what the entry says already. -/
def ContextRequest.keeps (req : ContextRequest) (cfg : ModelConfig) : Bool :=
  decide (req.tokensFor cfg = cfg.maxContextLen ∧ req.precisionFor cfg = cfg.kvCachePrecision)

/-- `configure_context`, as far as the catalog goes. -/
def configureContext (catalog : Catalog) (modelId : Str) (req : ContextRequest)
    (limit : Option Int) : Option Catalog :=
  match catalog.get? modelId with
  | none => none
  | some cfg =>
    if req.accepts cfg limit = false then none
    else if req.keeps cfg then some catalog
    else some (catalog.set modelId (req.config cfg))

/-- `_persist_converted_weight_format`; `none` is a `KeyError`. -/
def persistConvertedWeightFormat (catalog : Catalog) (modelId : Str) (weightFormat : WeightFormat) :
    Option Catalog :=
  (catalog.get? modelId).map fun cfg => catalog.set modelId { cfg with weightFormat }

/-! ### Runs -/

inductive CatalogOperation where
  | register (req : RegisterRequest)
  | configure (modelId : Str) (req : ContextRequest) (limit : Option Int)
  | persist (modelId : Str) (weightFormat : WeightFormat)

/-- A successful operation. -/
def Catalog.step (catalog : Catalog) : CatalogOperation → Option Catalog
  | .register req => req.validate.bind (registerModel catalog)
  | .configure modelId req limit => configureContext catalog modelId req limit
  | .persist modelId weightFormat => persistConvertedWeightFormat catalog modelId weightFormat

/-- The texts of a registration have no white space around them. -/
def RegisterRequest.stripped (req : RegisterRequest) : Bool :=
  decide (strip isSpace req.name = req.name) &&
    decide (strip isSpace req.sourceModel = req.sourceModel) &&
    match req.description with
    | none => true
    | some description => decide (strip isSpace description = description)

def strippedOperation (_ : Catalog) : CatalogOperation → Bool
  | .register req => req.stripped
  | .configure _ _ _ | .persist _ _ => true

variable {req : RegisterRequest} {cfg : ModelConfig} {catalog catalog' : Catalog} {modelId : Str}

/-! ### What a registration writes -/

theorem isModelId_of_pattern {s : Str} (hlength : s.length ≤ 128)
    (hpattern : matchesIdPattern s = true) : isModelId s = true := by
  cases s with
  | nil => cases hpattern
  | cons c rest =>
    have hrest : rest.length ≤ 127 := Nat.le_of_succ_le_succ hlength
    have h : (isAlphanumeric c && rest.all fun c =>
        isAlphanumeric c || c = '_' || c = '.' || c = '-') = true := hpattern
    rw [Bool.and_eq_true] at h
    show (isAlphanumeric c && rest.length ≤ 127 && rest.all fun c =>
        isAlphanumeric c || c = '_' || c = '.' || c = '-') = true
    rw [h.1, h.2, decide_eq_true hrest]
    rfl

theorem isSpace_of_isAlphanumeric {c : Char} (h : isAlphanumeric c = true) : isSpace c = false := by
  simp only [isAlphanumeric, Bool.or_eq_true, Bool.and_eq_true, decide_eq_true_eq] at h
  simp only [isSpace, decide_eq_false_iff_not]
  omega

/-- Text without white space. -/
theorem strip_of_no_space {s : Str} (h : ∀ c ∈ s, isSpace c = false) : strip isSpace s = s :=
  strip_eq_self (fun _ => h _ (List.head_mem _)) (fun _ => h _ (List.getLast_mem _))

theorem isSpace_of_pattern {s : Str} (hpattern : matchesIdPattern s = true) :
    ∀ c ∈ s, isSpace c = false := by
  cases s with
  | nil => nofun
  | cons c rest =>
    simp only [matchesIdPattern, Bool.and_eq_true, List.all_eq_true, Bool.or_eq_true,
      decide_eq_true_eq] at hpattern
    intro d hd
    rcases List.mem_cons.mp hd with rfl | hd
    · exact isSpace_of_isAlphanumeric hpattern.1
    · rcases hpattern.2 d hd with ((halpha | rfl) | rfl) | rfl
      · exact isSpace_of_isAlphanumeric halpha
      · decide
      · decide
      · decide

theorem modelsRoot_ne_nil : modelsRoot ≠ [] := by decide

theorem strip_modelPath {s : Str} (hpattern : matchesIdPattern s = true) :
    strip isSpace (modelsRoot ++ s) = modelsRoot ++ s := by
  apply strip_of_no_space
  intro c hc
  rcases List.mem_append.mp hc with hc | hc
  · have hroot : modelsRoot.all (!isSpace ·) = true := by decide
    simpa using List.all_eq_true.mp hroot c hc
  · exact isSpace_of_pattern hpattern c hc

/-- A text that does not begin or end with white space. -/
theorem strip_append {a b : Str} (ha : a ≠ []) (hb : b ≠ []) (hhead : isSpace (a.head ha) = false)
    (hstrip : strip isSpace b = b) : strip isSpace (a ++ b) = a ++ b := by
  apply strip_eq_self
  · intro h
    rw [List.head_append_of_ne_nil ha]
    exact hhead
  · intro h
    rw [List.getLast_append_of_ne_nil _ hb]
    have hlast : ∀ h : strip isSpace b ≠ [], isSpace ((strip isSpace b).getLast h) = false :=
      strip_last b
    rw [hstrip] at hlast
    exact hlast hb

/-- The default description ends as the source does. -/
theorem strip_customDescription {source : Str} (hsource : strip isSpace source = source)
    (hnonempty : source ≠ []) :
    strip isSpace (customDescription source) = customDescription source :=
  strip_append (by decide) hnonempty (by decide) hsource

/-- What the request schema promises. -/
structure RegisterRequest.Valid (req : RegisterRequest) : Prop where
  modelId : req.modelId.length ≤ 128 ∧ matchesIdPattern req.modelId = true
  name : req.name ≠ []
  sourceModel : req.sourceModel ≠ []
  device : ∃ e, DeviceCheck.parseDeviceExpression req.recommendedDevice = some e ∧
    e.normalized = req.recommendedDevice
  context : 128 ≤ req.maxContextLen ∧ req.maxContextLen ≤ maxContext
  output : 0 ≤ req.maxOutputTokens ∧ req.maxOutputTokens ≤ maxOutput
  budget : validBudget req.backend req.maxContextLen req.maxOutputTokens = true

theorem RegisterRequest.validate_eq_some {req req' : RegisterRequest}
    (h : req.validate = some req') :
    req'.Valid ∧ ∃ device, req' = { req with recommendedDevice := device } := by
  unfold validate at h
  split at h
  · next hchecks =>
    simp only [hasLength, Bool.and_eq_true, decide_eq_true_eq] at hchecks
    obtain ⟨⟨⟨⟨⟨⟨hid, hpattern⟩, hname⟩, hsource⟩, -⟩, hcontext⟩, houtput⟩ := hchecks
    split at h
    · cases h
    · next e hdevice =>
      split at h
      · next hbudget =>
        obtain rfl := Option.some.inj h
        exact ⟨⟨⟨hid.2, hpattern⟩, List.ne_nil_of_length_pos hname.1,
          List.ne_nil_of_length_pos hsource.1,
          ⟨e, DeviceCheck.parseDeviceExpression_normalized hdevice, rfl⟩, hcontext, houtput,
          hbudget⟩, e.normalized, rfl⟩
      · cases h
  · cases h

theorem RegisterRequest.descriptionText_none (h : req.description = none) :
    req.descriptionText = customDescription req.sourceModel := by
  rw [descriptionText, h]

theorem RegisterRequest.descriptionText_empty (h : req.description = some []) :
    req.descriptionText = customDescription req.sourceModel := by
  rw [descriptionText, h]

/-- The description that a registration writes is stripped with its other texts. -/
theorem RegisterRequest.stripped_iff (hsource : req.sourceModel ≠ []) :
    req.stripped = true ↔ strip isSpace req.name = req.name ∧
      strip isSpace req.sourceModel = req.sourceModel ∧
      strip isSpace req.descriptionText = req.descriptionText := by
  unfold stripped
  simp only [Bool.and_eq_true, decide_eq_true_eq, and_assoc]
  refine and_congr_right fun _ => and_congr_right fun hstrip => ?_
  rcases hdescription : req.description with - | description
  · rw [descriptionText_none hdescription]
    exact iff_of_true rfl (strip_customDescription hstrip hsource)
  · cases description with
    | nil =>
      rw [descriptionText_empty hdescription]
      exact iff_of_true rfl (strip_customDescription hstrip hsource)
    | cons c rest =>
      rw [descriptionText, hdescription]
      exact decide_eq_true_iff

/-- A registration writes a canonical entry exactly if its texts are stripped. -/
theorem RegisterRequest.Valid.canonical_iff (h : req.Valid) :
    req.config.Canonical ↔ req.stripped = true := by
  rw [stripped_iff h.sourceModel]
  constructor
  · intro hcanonical
    exact ⟨hcanonical.name.1, hcanonical.sourceModel, hcanonical.description⟩
  · rintro ⟨hname, hsource, hdescription⟩
    exact
      { id := isModelId_of_pattern h.modelId.1 h.modelId.2
        name := ⟨hname, h.name⟩
        description := hdescription
        modelPath :=
          ⟨strip_modelPath h.modelId.2, List.append_ne_nil_of_left_ne_nil modelsRoot_ne_nil _⟩
        sourceModel := hsource
        device := h.device
        context := h.context
        output := h.output
        budget := h.budget
        recommended := nofun }

/-! ### What the other operations write -/

theorem validBudget_of_lt {context context' output : Int} {backend : Backend}
    (h : validBudget backend context output = true) (hlt : output < context') :
    validBudget backend context' output = true := by
  unfold validBudget at h ⊢
  cases backend with
  | embeddings => exact h
  | genai | vlm =>
    simp only [Bool.and_eq_true, decide_eq_true_eq] at h ⊢
    exact ⟨h.1, hlt⟩

theorem ModelConfig.Canonical.output_lt (h : cfg.Canonical) :
    cfg.backend = .embeddings ∨ cfg.maxOutputTokens < cfg.maxContextLen := by
  have hbudget := h.budget
  unfold validBudget at hbudget
  cases hbackend : cfg.backend with
  | embeddings => exact .inl rfl
  | genai | vlm =>
    rw [hbackend] at hbudget
    simp only [Bool.and_eq_true, decide_eq_true_eq] at hbudget
    exact .inr hbudget.2

/-- The recommendation that a configuration writes is one that is read back. -/
theorem ModelConfig.Canonical.recommendedOrMax (h : cfg.Canonical) :
    128 ≤ cfg.recommendedOrMax ∧ cfg.recommendedOrMax ≤ maxContext ∧
      (cfg.backend = .embeddings ∨ cfg.maxOutputTokens < cfg.recommendedOrMax) := by
  have hmax := And.intro h.context.1 (And.intro h.context.2 h.output_lt)
  unfold ModelConfig.recommendedOrMax
  split
  · exact hmax
  · exact hmax
  · next value _ hvalue => exact h.recommended value hvalue

theorem canonical_configured {request : ContextRequest} {limit : Option Int} (h : cfg.Canonical)
    (haccepts : request.accepts cfg limit = true) : (request.config cfg).Canonical := by
  simp only [ContextRequest.accepts, validateContext, Bool.and_eq_true, decide_eq_true_eq]
    at haccepts
  obtain ⟨-, ⟨⟨-, hrange⟩, hreserve⟩, -⟩ := haccepts
  have hlt : cfg.maxOutputTokens < request.tokensFor cfg := by omega
  exact
    { h with
      context := hrange
      budget := validBudget_of_lt h.budget hlt
      recommended := by
        intro value hvalue
        obtain rfl := Option.some.inj hvalue
        exact h.recommendedOrMax }

theorem canonical_persisted {weightFormat : WeightFormat} (h : cfg.Canonical) :
    ModelConfig.Canonical { cfg with weightFormat } :=
  { h with }

/-! ### Runs -/

theorem canonicalCatalog_get? (h : CanonicalCatalog catalog)
    (hcfg : catalog.get? modelId = some cfg) : cfg.id = modelId ∧ cfg.Canonical :=
  h _ (Dict.mem_of_get? hcfg)

/-- Writing an entry under its identifier. -/
theorem canonicalCatalog_set (h : CanonicalCatalog catalog) (cfg : ModelConfig)
    (hid : cfg.id = modelId) :
    CanonicalCatalog (catalog.set modelId cfg) ↔ cfg.Canonical := by
  unfold CanonicalCatalog
  rw [Dict.forall_set]
  constructor
  · rintro ⟨⟨-, hcanonical⟩, -⟩
    exact hcanonical
  · intro hcanonical
    exact ⟨⟨hid, hcanonical⟩, fun item hitem _ => h item hitem⟩

/-- One operation keeps the catalog canonical exactly if it writes stripped texts. -/
theorem canonicalCatalog_step {e : CatalogOperation} (h : CanonicalCatalog catalog)
    (hstep : catalog.step e = some catalog') :
    CanonicalCatalog catalog' ↔ strippedOperation catalog e = true := by
  cases e with
  | register req =>
    obtain ⟨req', hvalid, hregister⟩ := Option.bind_eq_some_iff.mp hstep
    obtain ⟨hvalid, device, rfl⟩ := RegisterRequest.validate_eq_some hvalid
    unfold registerModel at hregister
    split at hregister
    · cases hregister
    · obtain rfl := Option.some.inj hregister
      exact (canonicalCatalog_set h _ rfl).trans hvalid.canonical_iff
  | configure modelId request limit =>
    refine iff_of_true ?_ rfl
    simp only [Catalog.step, configureContext] at hstep
    split at hstep
    · cases hstep
    · next cfg hcfg =>
      obtain ⟨hid, hcanonical⟩ := canonicalCatalog_get? h hcfg
      split at hstep
      · cases hstep
      · next haccepts =>
        split at hstep
        · obtain rfl := Option.some.inj hstep
          exact h
        · obtain rfl := Option.some.inj hstep
          have haccepts' : request.accepts cfg limit = true := by simpa using haccepts
          exact (canonicalCatalog_set h (request.config cfg) hid).mpr
            (canonical_configured hcanonical haccepts')
  | persist modelId weightFormat =>
    refine iff_of_true ?_ rfl
    obtain ⟨cfg, hcfg, rfl⟩ := Option.map_eq_some_iff.mp hstep
    obtain ⟨hid, hcanonical⟩ := canonicalCatalog_get? h hcfg
    exact (canonicalCatalog_set h { cfg with weightFormat } hid).mpr
      (canonical_persisted hcanonical)

/-- **Persistence.** Along a run from a loaded file, the catalog is read back as it is exactly
if every registration gives its texts without white space around them. -/
theorem lossless_iff_stripped (file : Option CatalogFile) {es : List CatalogOperation}
    (hrun : Transition.run Catalog.step (loadCatalog file) es = some catalog) :
    Transition.always Catalog.step Lossless (loadCatalog file) es ↔
      Transition.meets Catalog.step strippedOperation (loadCatalog file) es = true := by
  apply Transition.always_iff_meets (J := fun _ => True) (fun _ _ _ _ _ _ => trivial) _ trivial _
    hrun
  · intro c e c' _ hc hstep
    rw [lossless_iff_canonical] at hc ⊢
    exact canonicalCatalog_step hc hstep
  · exact lossless_iff_canonical.mpr (canonicalCatalog_loadCatalog file)

/-- A registration, then a smaller context and another weight format. -/
def tidyOperations : List CatalogOperation :=
  [.register { modelId := ['m'], name := ['M'], sourceModel := ['s'] },
    .configure ['m'] { tokens := some 1024, expected := 2048 } none, .persist ['m'] .int8]

theorem lossless_iff_stripped_tidy :
    ∃ catalog, Transition.run Catalog.step (loadCatalog none) tidyOperations = some catalog ∧
      Lossless catalog := by
  have hends : (Transition.run Catalog.step (loadCatalog none) tidyOperations).isSome = true := by
    decide
  have hrun := (Option.some_get hends).symm
  refine ⟨_, hrun, ?_⟩
  exact Transition.always_end ((lossless_iff_stripped none hrun).mpr (by decide)) hrun

/-- A name that the request schema takes and the parser of the catalog does not. -/
def blankName : RegisterRequest := { modelId := ['m'], name := [' '], sourceModel := ['s'] }

def blankCatalog : Catalog :=
  (Transition.run Catalog.step (loadCatalog none) [.register blankName]).get (by decide)

/-- The model is in the catalog, and not in what a restart reads. -/
theorem lossless_lost :
    Transition.run Catalog.step (loadCatalog none) [.register blankName] = some blankCatalog ∧
      (blankCatalog.get? ['m']).isSome = true ∧
      ((loadCatalog (some (saveCatalog blankCatalog))).get? ['m']).isSome = false ∧
      ¬ Lossless blankCatalog := by
  have hread : ((loadCatalog (some (saveCatalog blankCatalog))).get? ['m']).isSome = false := by
    decide
  have hhere : (blankCatalog.get? ['m']).isSome = true := by decide
  refine ⟨(Option.some_get _).symm, hhere, hread, ?_⟩
  intro hlossless
  rw [hlossless, hhere] at hread
  cases hread

end InferBridge
