/-
InferBridge/NpuShape.lean

The static shape of an NPU pipeline and the requests that are admitted to it
(runtime/npu_compat.py, app/model_manager.py, app/chat_format.py,
app/server.py).

The engine factory compiles a prompt length and a response length.  The
change of a context hands the response length over; a load leaves it to a
look-up in three catalog files, and to a formula where they have none.  The
active catalog need not be one of the three.  A request is trimmed to the
prompt length, but its last turn is kept whole, and the test behind it asks
only for room in the context window.

Main result: `requests_fit_iff`.
-/
import InferBridge.ContextPreflight
import InferBridge.PromptWindow

namespace InferBridge.NpuShape

open Text PromptWindow

/-! ### Devices -/

/-- `normalize_device`; `none` is a `DeviceValidationError`. -/
def normalizeDevice (device : Str) : Option Str :=
  let raw := if strip isSpace device = [] then "NPU".toList else device
  (DeviceCheck.parseDeviceExpression raw).map DeviceCheck.DeviceExpression.normalized

/-- `^NPU(?:\.\d+)?$` -/
def isNpuName (name : Str) : Bool :=
  name.take 3 = "NPU".toList &&
    match name.drop 3 with
    | [] => true
    | '.' :: index => !index.isEmpty && index.all DeviceCheck.isDecimal
    | _ => false

/-- `is_direct_npu` -/
def isDirectNpu (device : Str) : Bool := (normalizeDevice device).any isNpuName

/-! ### The response budget -/

/-- `int(value)` of a decoded JSON value; `none` is a `TypeError` or a `ValueError`. -/
structure IntReader where
  read : JsonValue → Option Int
  int : ∀ n, read (.int n) = some n
  null : read .null = none

/-- What the engine factory finds around it; `P` is a resolved path. -/
structure Factory (P : Type) where
  /-- `OV_LLM_MODELS_FILE` -/
  configured : Option P
  /-- `models.json` of the project and of the working directory. -/
  project : P
  working : P
  /-- The decoded document; `none` is a file that cannot be read. -/
  readCatalog : P → Option JsonValue
  /-- The directory that an entry of a catalog names. -/
  entryPath : P → Str → P
  /-- The directory that a configuration names. -/
  absPath : Str → P
  reader : IntReader
  openvinoAvailable : Bool
  forceMock : Bool
  cacheDir : Option Str
  /-- `Path.mkdir` succeeds. -/
  makesDirectory : Str → Bool

section
variable {P : Type} [DecidableEq P] (factory : Factory P)

/-- `_catalog_candidates` -/
def catalogCandidates : List P :=
  (factory.configured.toList ++ [factory.project, factory.working]).eraseDups

/-- `_positive_int` of a value in a document -/
def positiveField (value : Option JsonValue) : Option Int :=
  (factory.reader.read (value.getD .null)).filter fun n => 0 < n

/-- The budget of the entry with the model's name. -/
def budgetById (catalog : List (Str × JsonValue)) (modelId : Str) : Option Int :=
  match catalog.lookup modelId with
  | some (.obj raw) => positiveField factory (raw.lookup "max_output_tokens".toList)
  | _ => none

/-- The budget of an entry with the model's directory. -/
def budgetByPath (catalogPath modelPath : P) : JsonValue → Option Int
  | .obj raw =>
    match raw.lookup "model_path".toList with
    | some (.str rawPath) =>
      if strip isSpace rawPath = [] then none
      else if factory.entryPath catalogPath rawPath ≠ modelPath then none
      else positiveField factory (raw.lookup "max_output_tokens".toList)
    | _ => none
  | _ => none

/-- What one catalog file says. -/
def budgetIn (modelId : Str) (modelPath catalogPath : P) : Option Int :=
  match factory.readCatalog catalogPath with
  | some (.obj catalog) =>
    (budgetById factory catalog modelId).or
      (catalog.findSome? fun entry => budgetByPath factory catalogPath modelPath entry.2)
  | _ => none

/-- `_catalog_response_budget` -/
def catalogResponseBudget (modelId : Str) (modelPath : P) : Option Int :=
  (catalogCandidates factory).findSome? (budgetIn factory modelId modelPath)

def positive (n : Option Int) : Option Int := n.filter fun n => 0 < n

/-- `_fallback_response_budget` -/
def fallbackResponseBudget (maxPromptLen : Option Int) : Int :=
  max 128 (min 1024 ((positive maxPromptLen).getD 384 / 3))

/-- `resolve_response_budget` -/
def resolveResponseBudget (modelId : Str) (modelPath : P) (maxPromptLen explicit : Option Int) :
    Int :=
  match positive explicit with
  | some configured => configured
  | none =>
    (catalogResponseBudget factory modelId modelPath).getD (fallbackResponseBudget maxPromptLen)

/-! ### The engine factory -/

structure PluginConfig where
  maxPromptLen : Option Int := none
  minResponseLen : Option Int := none
  kvCachePrecision : Option Str := none
  cacheDir : Option Str := none

/-- `kv_cache_precision_property`; `none` is a `ValueError`. -/
def kvCachePrecisionProperty (device : Str) (kvCachePrecision : Option Str) :
    Option (Option Str) :=
  match kvCachePrecision with
  | none => some none
  | some text =>
    let value := lower (strip isSpace text)
    if value = [] ∨ value = "auto".toList then some none
    else if value ∉ ["f16".toList, "u8".toList, "u4".toList] then none
    else (normalizeDevice device).map fun name =>
      if name.takeWhile (· ≠ '.') ∈ ["CPU".toList, "GPU".toList] then some value else none

/-- `build_plugin_config`, of a normalized device -/
def buildPluginConfig (device : Str) (maxPromptLen maxResponseLen : Option Int) (backend : Str)
    (kvCachePrecision : Option Str) : Option PluginConfig := do
  let name ← normalizeDevice device
  let isEmbedding := isEmbeddingBackend backend
  let precision ← if isEmbedding then some none
    else kvCachePrecisionProperty name kvCachePrecision
  let sized := isDirectNpu name && !isEmbedding && maxPromptLen.any (· ≠ 0)
  some
    { maxPromptLen := if sized then maxPromptLen else none
      minResponseLen := if sized then some ((positive maxResponseLen).getD 128) else none
      kvCachePrecision := precision
      cacheDir := factory.cacheDir.filter fun dir => !dir.isEmpty && factory.makesDirectory dir }

structure EngineRequest (P : Type) where
  modelId : Str
  modelPath : P
  device : Str
  maxPromptLen : Option Int
  backend : Str
  maxResponseLen : Option Int := none
  kvCachePrecision : Option Str := none

/-- What `create_engine` constructs. -/
inductive Built where
  | original (device : Str)
  | embedding (config : PluginConfig)
  | vision (config : PluginConfig)
  | text (config : PluginConfig)

/-- `backend_supports_vision` -/
def backendSupportsVision (backend : Str) : Bool :=
  decide ("vlm".toList <:+: lower backend) || decide ("vision".toList <:+: lower backend)

/-- `create_engine`; `none` is a `ValueError`. -/
def createEngine (request : EngineRequest P) : Option Built := do
  let name ← normalizeDevice request.device
  if factory.forceMock || !factory.openvinoAvailable || !isDirectNpu name then
    some (.original name)
  else
    let isEmbedding := isEmbeddingBackend request.backend
    let responseBudget := if isEmbedding then none else
      some (resolveResponseBudget factory request.modelId request.modelPath request.maxPromptLen
        request.maxResponseLen)
    let config ← buildPluginConfig factory name request.maxPromptLen responseBudget
      request.backend none
    some (if isEmbedding then .embedding config
      else if backendSupportsVision (lower request.backend) then .vision config
      else .text config)

/-! ### The compiled shape -/

/-- `MAX_PROMPT_LEN` and `MIN_RESPONSE_LEN`. -/
structure Shape where
  prompt : Int
  response : Int
deriving DecidableEq, Repr

def PluginConfig.shape (config : PluginConfig) : Option Shape :=
  match config.maxPromptLen, config.minResponseLen with
  | some prompt, some response => some { prompt, response }
  | _, _ => none

/-- The vision engine nests the same values. -/
def Built.shape : Built → Option Shape
  | .original _ => none
  | .embedding config | .vision config | .text config => config.shape

/-- The request of `_build_engine`, on the load path. -/
def loadRequest (cfg : ModelConfig) (device : Str) : EngineRequest P where
  modelId := cfg.id
  modelPath := factory.absPath cfg.modelPath
  device
  maxPromptLen := some cfg.maxPromptLen
  backend := cfg.backend.text
  kvCachePrecision := cfg.kvCachePrecision.map KvPrecision.text

/-- The request of `configure_context`, for the configuration that it persists. -/
def configureRequest (cfg : ModelConfig) (device : Str) : EngineRequest P :=
  { loadRequest factory cfg device with maxResponseLen := some cfg.maxOutputTokens }

def loadShape (cfg : ModelConfig) (device : Str) : Option Shape :=
  (createEngine factory (loadRequest factory cfg device)).bind Built.shape

def configureShape (cfg : ModelConfig) (device : Str) : Option Shape :=
  (createEngine factory (configureRequest factory cfg device)).bind Built.shape

end

/-! ### Admitted requests -/

section
variable {ι π : Type} (template : List (Message ι) → π) (count : π → Int)

/-- The prompt of a conversation has `tokens` tokens, and the request gets `params`. -/
def Admitted (cfg : ModelConfig) (messages : List (Message ι)) (requested : Option Int)
    (tokens : Int) (params : GenParams) : Prop :=
  ∃ prompt released, (buildPromptWithinBudget (total Unit template) (total Unit count) messages
      cfg.maxPromptLen).run.run [] = (.ok (prompt, tokens), released) ∧
    paramsFor requested tokens cfg.maxContextLen = .ok params

/-- The conversation fits the shape, whatever output is requested. -/
def Fits (cfg : ModelConfig) (messages : List (Message ι)) (shape : Option Shape) : Prop :=
  ∃ s, shape = some s ∧ ∀ requested tokens params,
    Admitted template count cfg messages requested tokens params →
      tokens ≤ s.prompt ∧ tokens + params.maxNewTokens ≤ s.prompt + s.response

/-- The conversation does not fit the prompt length, none of the windows that are tried does, and
its last turn leaves room in the context window. -/
def Oversized (cfg : ModelConfig) (messages : List (Message ι)) : Prop :=
  cfg.maxPromptLen < count (template messages) ∧
    if turnsOf messages = [] then count (template messages) ≤ cfg.maxContextLen - 9
    else (∀ i : Nat, 1 ≤ ((turnsOf messages).length + 1) / 2 ^ (i + 1) → cfg.maxPromptLen <
        tokensOf template count messages (((turnsOf messages).length + 1) / 2 ^ (i + 1))) ∧
      tokensOf template count messages 1 ≤ cfg.maxContextLen - 9

end

/-- The look-up ends with `n`: the first catalog file that has a budget has this one, or none has
one and the formula gives it. -/
def Finds {P : Type} [DecidableEq P] (factory : Factory P) (cfg : ModelConfig) (n : Int) : Prop :=
  (∃ before file after, catalogCandidates factory = before ++ file :: after ∧
      (∀ other ∈ before, budgetIn factory cfg.id (factory.absPath cfg.modelPath) other = none) ∧
        budgetIn factory cfg.id (factory.absPath cfg.modelPath) file = some n) ∨
    ((∀ file ∈ catalogCandidates factory,
      budgetIn factory cfg.id (factory.absPath cfg.modelPath) file = none) ∧
        n = max 128 (min 1024 (cfg.maxPromptLen / 3)))

/-! ### What is compiled -/

theorem positiveField_pos {P : Type} {factory : Factory P} {value : Option JsonValue} {n : Int}
    (h : positiveField factory value = some n) : 0 < n := by
  obtain ⟨-, hpos⟩ := Option.filter_eq_some_iff.mp h
  exact of_decide_eq_true hpos

section
variable {P : Type} [DecidableEq P] {factory : Factory P} {cfg : ModelConfig}

theorem resolve_iff_finds {n : Int} (hpos : 0 < cfg.maxPromptLen) :
    resolveResponseBudget factory cfg.id (factory.absPath cfg.modelPath) (some cfg.maxPromptLen)
      none = n ↔ Finds factory cfg n := by
  have hpositive : positive (some cfg.maxPromptLen) = some cfg.maxPromptLen := by
    show (if decide (0 < cfg.maxPromptLen) = true then _ else _) = _
    rw [if_pos (decide_eq_true hpos)]
  have hresolve : resolveResponseBudget factory cfg.id (factory.absPath cfg.modelPath)
      (some cfg.maxPromptLen) none =
        (catalogResponseBudget factory cfg.id (factory.absPath cfg.modelPath)).getD
          (max 128 (min 1024 (cfg.maxPromptLen / 3))) := by
    show Option.getD _ (max 128 (min 1024 ((positive (some cfg.maxPromptLen)).getD 384 / 3))) = _
    rw [hpositive]
    rfl
  rw [hresolve]
  unfold catalogResponseBudget Finds
  constructor
  · intro h
    rcases hfound : (catalogCandidates factory).findSome?
        (budgetIn factory cfg.id (factory.absPath cfg.modelPath)) with - | budget
    · rw [hfound] at h
      exact .inr ⟨List.findSome?_eq_none_iff.mp hfound, h.symm⟩
    · rw [hfound] at h
      obtain rfl : budget = n := h
      obtain ⟨before, file, after, hsplit, hfile, hbefore⟩ :=
        List.findSome?_eq_some_iff.mp hfound
      exact .inl ⟨before, file, after, hsplit, hbefore, hfile⟩
  · rintro (⟨before, file, after, hsplit, hbefore, hfile⟩ | ⟨hnone, rfl⟩)
    · rw [List.findSome?_eq_some_iff.mpr ⟨before, file, after, hsplit, hfile, hbefore⟩]
      rfl
    · rw [List.findSome?_eq_none_iff.mpr hnone]
      rfl

/-- A name that the factory normalizes to. -/
theorem normalizeDevice_name {device name : Str} (h : normalizeDevice device = some name) :
    normalizeDevice name = some name := by
  obtain ⟨e, hparse, rfl⟩ := Option.map_eq_some_iff.mp h
  obtain ⟨hkept, hne⟩ := DeviceCheck.normalized_kept hparse
  unfold normalizeDevice
  rw [DeviceCheck.strip_kept hkept, if_neg hne]
  show (DeviceCheck.parseDeviceExpression e.normalized).map _ = _
  rw [DeviceCheck.parseDeviceExpression_normalized hparse]
  rfl

theorem positive_of_pos {n : Int} (h : 0 < n) : positive (some n) = some n := by
  show (if decide (0 < n) = true then _ else _) = _
  rw [if_pos (decide_eq_true h)]

theorem budgetIn_pos {modelId : Str} {modelPath file : P} {n : Int}
    (h : budgetIn factory modelId modelPath file = some n) : 0 < n := by
  unfold budgetIn at h
  split at h
  · rcases Option.or_eq_some_iff.mp h with hid | ⟨-, hpath⟩
    · unfold budgetById at hid
      split at hid
      · exact positiveField_pos hid
      · cases hid
    · obtain ⟨entry, -, hentry⟩ := List.exists_of_findSome?_eq_some hpath
      unfold budgetByPath at hentry
      split at hentry
      · split at hentry
        · split at hentry
          · cases hentry
          · split at hentry
            · cases hentry
            · exact positiveField_pos hentry
        · cases hentry
      · cases hentry
  · cases h

theorem Finds.pos {n : Int} (h : Finds factory cfg n) : 0 < n := by
  rcases h with ⟨before, file, after, -, -, hfile⟩ | ⟨-, rfl⟩
  · exact budgetIn_pos hfile
  · omega

theorem maxPromptLen_pos (cfg : ModelConfig) : 0 < cfg.maxPromptLen := by
  unfold ModelConfig.maxPromptLen
  omega

/-- The shape that the factory compiles for a generation model on one NPU. -/
theorem createEngine_shape {request : EngineRequest P} {prompt budget : Int}
    (hreal : factory.forceMock = false ∧ factory.openvinoAvailable = true)
    (hnpu : isDirectNpu request.device = true)
    (hbackend : isEmbeddingBackend request.backend = false)
    (hprompt : request.maxPromptLen = some prompt) (hpos : 0 < prompt)
    (hbudget : resolveResponseBudget factory request.modelId request.modelPath
      request.maxPromptLen request.maxResponseLen = budget) (hbudgetPos : 0 < budget) :
    (createEngine factory request).bind Built.shape = some ⟨prompt, budget⟩ := by
  obtain ⟨name, hname⟩ : ∃ name, normalizeDevice request.device = some name := by
    unfold isDirectNpu at hnpu
    rcases hnormal : normalizeDevice request.device with - | name
    · rw [hnormal] at hnpu
      cases hnpu
    · exact ⟨name, rfl⟩
  have hdirect : isDirectNpu name = true := by
    unfold isDirectNpu at hnpu ⊢
    rw [normalizeDevice_name hname, ← hname]
    exact hnpu
  have hsized : (isDirectNpu name && !isEmbeddingBackend request.backend &&
      request.maxPromptLen.any (· ≠ 0)) = true := by
    have hne : (decide (prompt ≠ 0)) = true := decide_eq_true (by omega)
    rw [hdirect, hbackend, hprompt]
    exact hne
  have hconfig : buildPluginConfig factory name request.maxPromptLen (some budget)
      request.backend none = some
        { maxPromptLen := some prompt
          minResponseLen := some budget
          kvCachePrecision := none
          cacheDir := factory.cacheDir.filter fun dir =>
            !dir.isEmpty && factory.makesDirectory dir } := by
    unfold buildPluginConfig
    rw [normalizeDevice_name hname, hbackend]
    show some (PluginConfig.mk _ _ _ _) = _
    rw [hbackend] at hsized
    rw [hsized, positive_of_pos hbudgetPos, hprompt]
    rfl
  unfold createEngine
  rw [hname, hreal.1, hreal.2]
  show Option.bind (if (false || !true || !isDirectNpu name) = true then _ else _) Built.shape = _
  rw [hdirect, if_neg (by decide), hbackend]
  show Option.bind (Option.bind (buildPluginConfig factory name request.maxPromptLen
    (some (resolveResponseBudget factory request.modelId request.modelPath request.maxPromptLen
      request.maxResponseLen)) request.backend none) _) Built.shape = _
  rw [hbudget, hconfig]
  show Built.shape (if backendSupportsVision (lower request.backend) then _ else _) = _
  split <;> rfl

/-- Both paths compile the prompt length; the load path compiles what the look-up finds. -/
theorem shapes {device : Str} {n : Int}
    (hreal : factory.forceMock = false ∧ factory.openvinoAvailable = true)
    (hnpu : isDirectNpu device = true) (hbackend : cfg.backend ≠ .embeddings)
    (houtput : 0 < cfg.maxOutputTokens) (hfinds : Finds factory cfg n) :
    loadShape factory cfg device = some ⟨cfg.maxPromptLen, n⟩ ∧
      configureShape factory cfg device = some ⟨cfg.maxPromptLen, cfg.maxOutputTokens⟩ := by
  have hgeneration : isEmbeddingBackend cfg.backend.text = false := by
    rcases hcase : cfg.backend with - | - | -
    · decide
    · exact absurd hcase hbackend
    · decide
  have hpos := maxPromptLen_pos cfg
  constructor
  · exact createEngine_shape hreal hnpu hgeneration rfl hpos
      ((resolve_iff_finds hpos).mpr hfinds) hfinds.pos
  · refine createEngine_shape hreal hnpu hgeneration rfl hpos ?_ houtput
    show resolveResponseBudget factory _ _ _ (some cfg.maxOutputTokens) = _
    unfold resolveResponseBudget
    rw [positive_of_pos houtput]

/-- The look-up finds something. -/
theorem exists_finds (factory : Factory P) (cfg : ModelConfig) : ∃ n, Finds factory cfg n :=
  ⟨_, (resolve_iff_finds (maxPromptLen_pos cfg)).mp rfl⟩

theorem Finds.unique {n n' : Int} (h : Finds factory cfg n) (h' : Finds factory cfg n') :
    n = n' :=
  ((resolve_iff_finds (maxPromptLen_pos cfg)).mpr h).symm.trans
    ((resolve_iff_finds (maxPromptLen_pos cfg)).mpr h')

/-- The first catalog file has an entry with the model's name and a budget. -/
theorem finds_of_listed {file : P} {others : List P} {catalog raw : List (Str × JsonValue)} {n : Int}
    (hfirst : catalogCandidates factory = file :: others)
    (hread : factory.readCatalog file = some (.obj catalog))
    (hentry : catalog.lookup cfg.id = some (.obj raw))
    (hbudget : raw.lookup "max_output_tokens".toList = some (.int n)) (hpos : 0 < n) :
    Finds factory cfg n := by
  refine .inl ⟨[], file, others, hfirst, by simp, ?_⟩
  have hid : budgetById factory catalog cfg.id = some n := by
    unfold budgetById
    rw [hentry]
    show positiveField factory (raw.lookup "max_output_tokens".toList) = _
    rw [hbudget]
    show (factory.reader.read (.int n)).filter _ = _
    rw [factory.reader.int]
    exact positive_of_pos hpos
  unfold budgetIn
  rw [hread]
  show (budgetById factory catalog cfg.id).or _ = _
  rw [hid]
  rfl

end

/-! ### What is admitted -/

section
variable {ι π : Type} {template : List (Message ι) → π} {count : π → Int} {cfg : ModelConfig}
  {messages : List (Message ι)}

theorem split_system (messages : List (Message ι)) :
    (splitLeadingSystemAndTurns messages).1 = messages.takeWhile isSystemMessage := by
  unfold splitLeadingSystemAndTurns
  obtain ⟨turns, current, hloop⟩ : ∃ turns current,
      splitLoop [] [] (messages.dropWhile isSystemMessage) = (turns, current) := ⟨_, _, rfl⟩
  dsimp only
  rw [hloop]
  dsimp only
  generalize (if opensWithUser current then turns ++ [current] else turns) = closed
  split <;> rfl

/-- A conversation without a turn has system messages only. -/
theorem system_of_no_turns (h : turnsOf messages = []) :
    messages.takeWhile isSystemMessage = messages := by
  have hrest : messages.dropWhile isSystemMessage = [] := by
    rcases hremainder : messages.dropWhile isSystemMessage with - | ⟨first, rest⟩
    · rfl
    · exfalso
      unfold turnsOf splitLeadingSystemAndTurns at h
      rw [hremainder] at h
      obtain ⟨turns, current, hloop⟩ : ∃ turns current,
          splitLoop [] [] (first :: rest) = (turns, current) := ⟨_, _, rfl⟩
      dsimp only at h
      rw [hloop] at h
      dsimp only at h
      generalize (if opensWithUser current then turns ++ [current] else turns) = closed at h
      split at h
      · rw [List.getLast?_cons] at h
        cases h
      · next hne =>
        obtain rfl : closed = [] := h
        exact hne rfl
  have hsplit := List.takeWhile_append_dropWhile (p := isSystemMessage) (l := messages)
  rw [hrest, List.append_nil] at hsplit
  exact hsplit

/-- The windows that the builder tries. -/
theorem window_tokens (template : List (Message ι) → π) (count : π → Int)
    (messages : List (Message ι)) {k : Nat} (hk : 1 ≤ k) :
    count (template ((splitLeadingSystemAndTurns messages).1 ++
      (lastItems (turnsOf messages) (k : Int)).flatten)) = tokensOf template count messages k := by
  rw [split_system]
  unfold tokensOf window lastItems
  rw [if_pos (by omega), Int.toNat_natCast]

/-- **The builder returns too many tokens for the shape, but few enough for the context, exactly on
an oversized conversation.** -/
theorem builds (template : List (Message ι) → π) (count : π → Int) (cfg : ModelConfig)
    (messages : List (Message ι)) : ∃ prompt tokens released,
      (buildPromptWithinBudget (total Unit template) (total Unit count) messages
        cfg.maxPromptLen).run.run [] = (.ok (prompt, tokens), released) ∧
      ((cfg.maxPromptLen < tokens ∧ tokens ≤ cfg.maxContextLen - 9) ↔
        Oversized template count cfg messages) := by
  unfold Oversized
  by_cases hmessages : messages = []
  · subst hmessages
    refine ⟨template [], count (template []), [], rfl, ?_⟩
    rw [if_pos (show turnsOf ([] : List (Message ι)) = [] from rfl)]
  by_cases hfits : count (template messages) ≤ cfg.maxPromptLen
  · refine ⟨_, _, _, buildPrompt_whole Unit hmessages hfits [], ?_⟩
    constructor
    · rintro ⟨hover, -⟩
      omega
    · rintro ⟨hover, -⟩
      omega
  have hover : cfg.maxPromptLen < count (template messages) := lt_of_not_ge hfits
  by_cases hturns : turnsOf messages = []
  · rw [if_pos hturns]
    refine ⟨template messages, count (template messages), [template messages], ?_, Iff.rfl⟩
    unfold buildPromptWithinBudget
    rw [if_neg (by simpa using hmessages)]
    show (if count (template messages) ≤ cfg.maxPromptLen then _ else _ :
      Rendering Unit π (π × Int)).run.run [] = _
    rw [if_neg hfits, discard_run]
    have hsplit : splitLeadingSystemAndTurns messages = (messages, []) := by
      apply Prod.ext
      · rw [split_system, system_of_no_turns hturns]
      · exact hturns
    rw [hsplit]
    rfl
  · rw [if_neg hturns]
    obtain ⟨released, hrun⟩ := buildPrompt_trims Unit hmessages hturns hfits []
    refine ⟨_, _, released, hrun, ?_⟩
    have hlength : 1 ≤ (turnsOf messages).length := List.length_pos_of_ne_nil hturns
    obtain ⟨hfail, hfound⟩ := bisect_halves (fun k => decide (count (template
      ((splitLeadingSystemAndTurns messages).1 ++ (lastItems (turnsOf messages) k).flatten)) ≤
        cfg.maxPromptLen)) (turnsOf messages).length
    have hhalves : HalvesFail (fun k => decide (count (template
        ((splitLeadingSystemAndTurns messages).1 ++ (lastItems (turnsOf messages) k).flatten)) ≤
          cfg.maxPromptLen)) (turnsOf messages).length ↔
        ∀ i : Nat, 1 ≤ ((turnsOf messages).length + 1) / 2 ^ (i + 1) → cfg.maxPromptLen <
          tokensOf template count messages (((turnsOf messages).length + 1) / 2 ^ (i + 1)) := by
      apply forall_congr'
      intro i
      apply forall_congr'
      intro hi
      rw [decide_eq_false_iff_not, window_tokens template count messages hi, not_le]
    unfold trimmed turnsKept
    by_cases hall : HalvesFail (fun k => decide (count (template
        ((splitLeadingSystemAndTurns messages).1 ++ (lastItems (turnsOf messages) k).flatten)) ≤
          cfg.maxPromptLen)) (turnsOf messages).length
    · -- only the last turn is left, and it was tried
      have hone : cfg.maxPromptLen < tokensOf template count messages 1 := by
        have hlog : 1 ≤ Nat.log 2 ((turnsOf messages).length + 1) :=
          Nat.log_pos (by omega) (by omega)
        obtain ⟨i, hi⟩ : ∃ i, Nat.log 2 ((turnsOf messages).length + 1) = i + 1 :=
          ⟨_, (Nat.succ_pred_eq_of_pos hlog).symm⟩
        have hlast : ((turnsOf messages).length + 1) / 2 ^ (i + 1) = 1 := by
          rw [← hi]
          exact Nat.div_eq_of_lt_le (by simpa using Nat.pow_log_le_self 2 (by omega))
            (by simpa [Nat.pow_succ, Nat.mul_comm] using Nat.lt_pow_succ_log_self (b := 2) (by omega) _)
        have htried := hhalves.mp hall i (by omega)
        rw [hlast] at htried
        exact htried
      have hkept := window_tokens template count messages (le_refl 1)
      rw [hfail hall]
      rw [Nat.cast_one] at hkept
      rw [hkept]
      constructor
      · rintro ⟨-, hroom⟩
        exact ⟨hover, hhalves.mp hall, hroom⟩
      · rintro ⟨-, -, hroom⟩
        exact ⟨hone, hroom⟩
    · have hfit := of_decide_eq_true (hfound hall)
      constructor
      · rintro ⟨hlong, -⟩
        exact absurd hfit (not_le.mpr hlong)
      · rintro ⟨-, htried, -⟩
        exact absurd (hhalves.mpr htried) hall

/-- A conversation fits the shape of its configuration exactly if it is not oversized. -/
theorem fits_iff : Fits template count cfg messages
    (some ⟨cfg.maxPromptLen, cfg.maxOutputTokens⟩) ↔ ¬ Oversized template count cfg messages := by
  obtain ⟨prompt, tokens, released, hrun, hoversized⟩ := builds template count cfg messages
  rw [← hoversized]
  constructor
  · rintro ⟨s, hs, hall⟩ ⟨hlong, hroom⟩
    obtain rfl := Option.some.inj hs
    obtain ⟨params, hparams⟩ := (paramsFor_ok_iff none).mpr hroom
    obtain ⟨hle, -⟩ := hall none tokens params ⟨prompt, released, hrun, hparams⟩
    exact absurd hle (not_le.mpr hlong)
  · intro hfew
    refine ⟨_, rfl, ?_⟩
    rintro requested tokens' params ⟨prompt', released', hrun', hparams⟩
    obtain ⟨hbuilt, -⟩ := Prod.mk.inj (hrun.symm.trans hrun')
    obtain ⟨-, rfl⟩ := Prod.mk.inj (Except.ok.inj hbuilt)
    have hroom : tokens ≤ cfg.maxContextLen - 9 := (paramsFor_ok_iff requested).mp ⟨params, hparams⟩
    have htotal := paramsFor_le hparams
    have hshape : cfg.maxContextLen - cfg.maxOutputTokens ≤ cfg.maxPromptLen :=
      le_max_left _ _
    constructor
    · show tokens ≤ cfg.maxPromptLen
      by_contra hlong
      exact hfew ⟨lt_of_not_ge hlong, hroom⟩
    · show tokens + params.maxNewTokens ≤ cfg.maxPromptLen + cfg.maxOutputTokens
      omega

end

/-! ### Requests and shapes -/

/-- The catalog file holds the entry of the model. -/
def HoldsEntry {P : Type} (factory : Factory P) (file : P) (modelId : Str)
    (raw : List (Str × JsonValue)) : Prop :=
  ∃ catalog, factory.readCatalog file = some (.obj catalog) ∧ catalog.lookup modelId = some (.obj raw)

/-- Both paths compile the same shape, and what is admitted fits it. -/
def Consistent {P : Type} [DecidableEq P] (factory : Factory P) (cfg : ModelConfig) (device : Str)
    {ι π : Type} (template : List (Message ι) → π) (count : π → Int)
    (messages : List (Message ι)) : Prop :=
  loadShape factory cfg device = configureShape factory cfg device ∧
    Fits template count cfg messages (loadShape factory cfg device) ∧
      Fits template count cfg messages (configureShape factory cfg device)

/-- **Requests and shapes are consistent exactly if the look-up finds the response budget of the
configuration and the conversation is not oversized.** -/
theorem requests_fit_iff {P : Type} [DecidableEq P] (factory : Factory P)
    (hreal : factory.forceMock = false ∧ factory.openvinoAvailable = true) {modelId : Str}
    {raw : List (Str × JsonValue)} {cfg : ModelConfig} (hcfg : coerceEntry modelId raw = some cfg)
    (hbackend : cfg.backend ≠ .embeddings) {device : Str} (hnpu : isDirectNpu device = true)
    {ι π : Type} (template : List (Message ι) → π) (count : π → Int)
    (messages : List (Message ι)) :
    Consistent factory cfg device template count messages ↔
      Finds factory cfg cfg.maxOutputTokens ∧ ¬ Oversized template count cfg messages := by
  have houtput : 0 < cfg.maxOutputTokens := by
    have hbudget := (coerceEntry_canonical hcfg).2.budget
    unfold validBudget at hbudget
    rcases hcase : cfg.backend with - | - | -
    · rw [hcase, Bool.and_eq_true, decide_eq_true_eq] at hbudget
      omega
    · exact absurd hcase hbackend
    · rw [hcase, Bool.and_eq_true, decide_eq_true_eq] at hbudget
      omega
  obtain ⟨n, hfinds⟩ := exists_finds factory cfg
  obtain ⟨hload, hconfigure⟩ := shapes hreal hnpu hbackend houtput hfinds
  unfold Consistent
  rw [hload, hconfigure, fits_iff]
  constructor
  · rintro ⟨hsame, -, hfits⟩
    obtain rfl : n = cfg.maxOutputTokens := congrArg Shape.response (Option.some.inj hsame)
    exact ⟨hfinds, hfits⟩
  · rintro ⟨hfound, hfits⟩
    obtain rfl : n = cfg.maxOutputTokens := hfinds.unique hfound
    exact ⟨rfl, fits_iff.mpr hfits, hfits⟩

/-- Integers and nothing else. -/
def integersOnly : IntReader where
  read := fun value => match value with
    | .int n => some n
    | _ => none
  int _ := rfl
  null := rfl

/-- An entry with its budgets; the other fields have their defaults. -/
def listedEntry : List (Str × JsonValue) :=
  [("max_context_len".toList, .int 2048), ("max_output_tokens".toList, .int 512)]

/-- A project whose catalog lists one model. -/
def listedFactory : Factory Str where
  configured := none
  project := "models.json".toList
  working := "models.json".toList
  readCatalog _ := some (.obj [("m".toList, .obj listedEntry)])
  entryPath _ path := path
  absPath path := path
  reader := integersOnly
  openvinoAvailable := true
  forceMock := false
  cacheDir := none
  makesDirectory _ := true

def listedConfig : ModelConfig where
  id := "m".toList
  name := "m".toList
  description := []
  backend := .genai
  modelPath := "models/openvino/m".toList
  sourceModel := []
  weightFormat := .int4
  recommendedDevice := "NPU".toList
  maxContextLen := 2048
  maxOutputTokens := 512

theorem coerce_listed : coerceEntry "m".toList listedEntry = some listedConfig := by
  rfl

theorem finds_listed : Finds listedFactory listedConfig listedConfig.maxOutputTokens :=
  finds_of_listed rfl rfl rfl rfl (by decide)

/-- One question. -/
def question : List (Message Unit) := [⟨"user".toList, .text "q".toList⟩]

theorem requests_fit_iff_question :
    Consistent listedFactory listedConfig "NPU".toList id (fun _ => 1500) question ↔
      Finds listedFactory listedConfig listedConfig.maxOutputTokens ∧
        ¬ Oversized id (fun _ => 1500) listedConfig question :=
  requests_fit_iff listedFactory ⟨rfl, rfl⟩ coerce_listed (by decide) (by decide) id
    (fun _ => 1500) question

/-- A question of 1600 tokens is admitted to a prompt length of 1536. -/
theorem admits_oversized :
    ¬ ∀ (factory : Factory Str) (modelsFile modelId : Str) (raw : List (Str × JsonValue))
      (cfg : ModelConfig) (device : Str) (count : List (Message Unit) → Int)
      (messages : List (Message Unit)), HoldsEntry factory modelsFile modelId raw →
        modelsFile ∈ catalogCandidates factory → coerceEntry modelId raw = some cfg →
        cfg.backend ≠ .embeddings → factory.forceMock = false → factory.openvinoAvailable = true →
        isDirectNpu device = true → Consistent factory cfg device id count messages := by
  intro h
  have hlisted : "models.json".toList ∈ catalogCandidates listedFactory := by decide
  obtain ⟨-, -, hfits⟩ := h listedFactory "models.json".toList "m".toList listedEntry listedConfig
    "NPU".toList (fun _ => 1600) question ⟨_, rfl, rfl⟩ hlisted coerce_listed (by decide) rfl rfl
    (by decide)
  obtain ⟨-, hconfigure⟩ := shapes ⟨rfl, rfl⟩ (by decide : isDirectNpu "NPU".toList = true)
    (by decide : listedConfig.backend ≠ .embeddings) (by decide) finds_listed
  rw [hconfigure, fits_iff] at hfits
  apply hfits
  refine ⟨by decide, ?_⟩
  rw [if_neg (by decide)]
  refine ⟨fun i _ => ?_, ?_⟩
  · show listedConfig.maxPromptLen < (1600 : Int)
    decide
  · show (1600 : Int) ≤ listedConfig.maxContextLen - 9
    decide

end InferBridge.NpuShape
