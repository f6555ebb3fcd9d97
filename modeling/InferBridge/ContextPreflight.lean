/-
InferBridge/ContextPreflight.lean

The context preflight (app/context_budget.py) beside the generation path
that it foretells (app/server.py): the prompt of a chat request and the
parameters of its generation.

Both work on one engine, whose template and counter may be any functions.
The preflight may also be told of images that the browser has not yet
embedded; each of them reserves tokens.

Main results.  Where no more images are announced than the messages have,
the preflight reports exactly when a prompt is prepared, with its token
count, the output tokens of the generation, and blocked exactly where that
is refused for lack of context (`contextBudget_agrees`).  A model of the
catalog generates for every prompt of its prompt length exactly if its output
limit is at least nine tokens (`catalog_generates_iff`).
-/
import InferBridge.ChatFormat

namespace InferBridge

open Text

/-! ### Engines and requests -/

/-- A loaded engine, as far as prompts go. -/
structure PromptEngine (ι ε π : Type) where
  backend : Str
  supportsVision : Bool
  applyChatTemplate : List (Message ι) → Except (Failure ε) π
  countTokens : π → Except (Failure ε) Int

/-- `ChatCompletionRequest`, accepted by the schema. -/
structure ChatCompletionRequest {ι : Type} (codec : JsonCodec) (images : ImageCodec ι) where
  model : Str
  messages : List RequestMessage
  maxTokens : Option Int := some 512
  tools : List FunctionTool := []
  toolChoice : Json := .null
  loraPath : Option Str := none
  accepted : (preflightRequestContents codec images
    (messages.map fun message => (message.role, message.content)) :
      Except (Failure Unit) Unit) = .ok ()

structure ContextBudgetRequest {ι : Type} (codec : JsonCodec) (images : ImageCodec ι) extends
    ChatCompletionRequest codec images where
  imageCount : Nat := 0

/-- The chat request with the same model, messages, tools and token limit. -/
def ContextBudgetRequest.chatRequest {ι : Type} {codec : JsonCodec} {images : ImageCodec ι}
    (request : ContextBudgetRequest codec images) : ChatCompletionRequest codec images :=
  { request.toChatCompletionRequest with loraPath := none }

section
variable {ι ε π : Type} (codec : JsonCodec) (images : ImageCodec ι) (dumpsIndented : Json → Str)
variable (engine : PromptEngine ι ε π)

def isEmbeddingBackend (backend : Str) : Bool := decide ("embedding".toList <:+: lower backend)

/-- `content_has_images`, of contents as they come -/
def contentHasImages : Json → Bool
  | .arr parts => parts.any (isImagePart codec)
  | _ => false

def useTools (tools : List FunctionTool) (toolChoice : Json) : Bool :=
  !tools.isEmpty && !isText "none".toList toolChoice

def ModelConfig.maxPromptLen (cfg : ModelConfig) : Int :=
  max (cfg.maxContextLen - cfg.maxOutputTokens) 64

def contextLenOf (cfg : Option ModelConfig) : Int :=
  match cfg with
  | some cfg => cfg.maxContextLen
  | none => 2048

def promptLenOf (cfg : Option ModelConfig) : Int :=
  match cfg with
  | some cfg => cfg.maxPromptLen
  | none => 1536

/-! ### Generation -/

structure GenParams where
  maxNewTokens : Int

structure HttpException where
  status : Nat
  detail : Str

/-- `_params_for`; the sampling fields pass through it unread. -/
def paramsFor (requestMaxTokens : Option Int) (promptTokens maxContextLen : Int) :
    Except HttpException GenParams :=
  let available := maxContextLen - promptTokens - 8
  if available < 1 then
    .error (.mk 400 ("Prompt requires ".toList ++ (toString promptTokens).toList ++
      " tokens and leaves no room in the ".toList ++ (toString maxContextLen).toList ++
      "-token context window. Reduce the prompt or image count.".toList))
  else
    let requested := match requestMaxTokens with
      | none | some 0 => 512
      | some n => n
    .ok { maxNewTokens := min requested available }

/-- `_normalize_and_build_chat_prompt` -/
def normalizeAndBuildChatPrompt (messages : List RequestMessage) (maxPromptLen : Int)
    (tools : List FunctionTool) (toolChoice : Json) (usesTools : Bool) :
    Rendering (Failure ε) π (List (Message ι) × π × Int) := do
  let systemOverride ← MonadExcept.ofExcept
    (if usesTools then formatToolsForPrompt codec dumpsIndented tools toolChoice else .ok [])
  MonadExcept.ofExcept (if systemOverride.isEmpty then .ok ()
    else preflightRequestContents codec images [("user".toList, .str systemOverride)])
  let dictMessages ← MonadExcept.ofExcept
    (normalizeMessages codec images messages systemOverride)
  let (prompt, promptTokens) ← buildPromptWithinBudget engine.applyChatTemplate engine.countTokens
    dictMessages maxPromptLen
  pure (dictMessages, prompt, promptTokens)

/-- The handlers of `_build_prompt_off_thread`. -/
def Failure.asResponse : Failure ε → Failure ε
  | .visionCapacity message => .http 503 message
  | .valueError message => .http 400 message
  | e => e

def buildPromptOffThread {α : Type} (builder : Rendering (Failure ε) π α) :
    Rendering (Failure ε) π α :=
  tryCatch builder fun e => throw e.asResponse

/-- `_validate_generation_request`, with the check of the backend before it. -/
def validateGenerationRequest (request : ChatCompletionRequest codec images) :
    Except (Failure ε) Unit :=
  if isEmbeddingBackend engine.backend then
    .error (.http 400 ("Model '".toList ++ request.model ++
      "' is an embedding model and cannot be used for text completions.".toList))
  else if (request.messages.any fun message => contentHasImages codec message.content) &&
      !engine.supportsVision then
    .error (.http 400 ("Model '".toList ++ request.model ++
      "' is not vision-capable and cannot accept image input.".toList))
  else if request.loraPath.any (!·.isEmpty) && engine.supportsVision then
    .error (.http 400 "Dynamic LoRA adapters are not supported by the vision backend.".toList)
  else .ok ()

/-- `chat_completions` up to its prompt. -/
def chatPrompt (cfg : Option ModelConfig) (request : ChatCompletionRequest codec images) :
    Rendering (Failure ε) π (List (Message ι) × π × Int) := do
  MonadExcept.ofExcept (validateGenerationRequest codec images engine request)
  buildPromptOffThread (normalizeAndBuildChatPrompt codec images dumpsIndented engine
    request.messages (promptLenOf cfg) request.tools request.toolChoice
    (useTools request.tools request.toolChoice))

/-! ### The preflight -/

def previewLimit : Nat := 180

def maxPreviewMessages : Nat := 12

def safetyTokens : Int := 8

def imageTokenReserve : Int := 512

structure MessagePreview where
  index : Nat
  role : Str
  preview : Str

/-- `_preview_message` -/
def previewMessage (index : Nat) (message : Message ι) : MessagePreview :=
  let text := normalize isSpace ' ' (plainText "[Image]".toList message.content)
  let text :=
    if previewLimit < text.length then
      (text.take (previewLimit - 1)).rdropWhile isSpace ++ ['…']
    else text
  { index
    role := (if message.role.isEmpty then "unknown".toList else message.role).take 32
    preview := if text.isEmpty then "(empty message)".toList else text }

/-- The report, but for its percentages. -/
structure BudgetReport where
  model : Str
  modelName : Str
  promptTokens : Int
  maxPromptTokens : Int
  maxContextTokens : Int
  modelOutputReserveTokens : Int
  requestedOutputTokens : Int
  availableOutputTokens : Int
  effectiveOutputTokens : Int
  outputLimited : Bool
  safetyTokens : Int
  contextUsageTokens : Int
  messageCount : Nat
  retainedMessageCount : Nat
  droppedMessageCount : Nat
  droppedTurnCount : Int
  droppedMessages : List MessagePreview
  droppedPreviewTruncated : Bool
  willTruncate : Bool
  promptOverBudget : Bool
  blocked : Bool
  systemInstructionsRetained : Bool
  attachmentCount : Nat
  attachmentTokenEstimate : Int
  attachmentEstimatePerImage : Int

/-- The computation of the report from the analysis. -/
def budgetReport (cfg : Option ModelConfig) (request : ContextBudgetRequest codec images)
    (normalized : List (Message ι)) (analysis : PromptBudgetAnalysis π) : BudgetReport :=
  let maxContextLen := contextLenOf cfg
  let requestedOutput := match request.maxTokens with
    | none | some 0 => 512
    | some n => n
  let availableOutput := max 0 (maxContextLen - analysis.promptTokens - safetyTokens)
  let effectiveOutput := min requestedOutput availableOutput
  let dropped := (enumerate 0 normalized).filter (!analysis.retainedIndexes.contains ·.1)
  let previews := (dropped.map fun item => previewMessage item.1 item.2).take maxPreviewMessages
  let attachmentCount := max (actualImageCount normalized) request.imageCount
  { model := request.model
    modelName := match cfg with
      | some cfg => cfg.name
      | none => request.model
    promptTokens := analysis.promptTokens
    maxPromptTokens := promptLenOf cfg
    maxContextTokens := maxContextLen
    modelOutputReserveTokens := max 0 (maxContextLen - promptLenOf cfg)
    requestedOutputTokens := requestedOutput
    availableOutputTokens := availableOutput
    effectiveOutputTokens := effectiveOutput
    outputLimited := decide (effectiveOutput < requestedOutput)
    safetyTokens := safetyTokens
    contextUsageTokens :=
      min maxContextLen (analysis.promptTokens + effectiveOutput + safetyTokens)
    messageCount := normalized.length
    retainedMessageCount := analysis.retainedIndexes.length
    droppedMessageCount := analysis.droppedIndexes.length
    droppedTurnCount := analysis.droppedTurns
    droppedMessages := previews
    droppedPreviewTruncated := decide (previews.length < analysis.droppedIndexes.length)
    willTruncate := !analysis.droppedIndexes.isEmpty
    promptOverBudget := decide (promptLenOf cfg < analysis.promptTokens)
    blocked := decide (availableOutput < 1)
    systemInstructionsRetained := match normalized with
      | [] => false
      | first :: _ => isSystemMessage first
    attachmentCount
    attachmentTokenEstimate := attachmentCount * imageTokenReserve
    attachmentEstimatePerImage := imageTokenReserve }

/-- The checks of `inspect_context_budget` on the engine. -/
def validateBudgetRequest (request : ContextBudgetRequest codec images) :
    Except (Failure ε) Unit :=
  if isEmbeddingBackend engine.backend then
    .error (.http 400 ("Model '".toList ++ request.model ++
      "' is an embedding model and has no chat context budget.".toList))
  else if ((request.messages.any fun message => contentHasImages codec message.content) ||
      decide (0 < request.imageCount)) && !engine.supportsVision then
    .error (.http 400 ("Model '".toList ++ request.model ++
      "' is not vision-capable and cannot accept image input.".toList))
  else .ok ()

/-- `inspect_context_budget` -/
def contextBudget (cfg : Option ModelConfig) (request : ContextBudgetRequest codec images) :
    Rendering (Failure ε) π BudgetReport := do
  MonadExcept.ofExcept (validateBudgetRequest codec images engine request)
  let systemOverride ← MonadExcept.ofExcept
    (if useTools request.tools request.toolChoice then
      formatToolsForPrompt codec dumpsIndented request.tools request.toolChoice
    else .ok [])
  MonadExcept.ofExcept (if systemOverride.isEmpty then .ok ()
    else preflightRequestContents codec images [("user".toList, .str systemOverride)])
  let normalized ← MonadExcept.ofExcept
    (normalizeMessages codec images request.messages systemOverride)
  let syntheticImages := request.imageCount - actualImageCount normalized
  let countWithPendingImages (prompt : π) : Except (Failure ε) Int :=
    (engine.countTokens prompt).map (· + syntheticImages * imageTokenReserve)
  let analysis ← analyzePromptBudget engine.applyChatTemplate countWithPendingImages normalized
    (promptLenOf cfg)
  discardPromptContext analysis.prompt
  pure (budgetReport codec images cfg request normalized analysis)

/-! ### The two agree -/

/-- What the preflight says about a prepared prompt, which is all that generation needs. -/
def BudgetReport.Foretells (report : BudgetReport) (requestMaxTokens : Option Int)
    (promptTokens maxContextLen : Int) : Prop :=
  report.promptTokens = promptTokens ∧
    match paramsFor requestMaxTokens promptTokens maxContextLen with
    | .ok params => report.blocked = false ∧ report.effectiveOutputTokens = params.maxNewTokens
    | .error _ => report.blocked = true

variable {codec images engine}

theorem contentHasImages_iff {content : Json} :
    contentHasImages codec content = true ↔ imageParts codec content ≠ 0 := by
  cases content with
  | arr parts =>
    show parts.any (isImagePart codec) = true ↔ parts.countP (isImagePart codec) ≠ 0
    rw [List.any_eq_true, ← Nat.pos_iff_ne_zero, List.countP_pos_iff]
  | _ => exact iff_of_false (by simp [contentHasImages]) (by simp [imageParts])

theorem hasImages_of_requestImages {messages : List RequestMessage}
    (h : 0 < requestImages codec messages) :
    (messages.any fun message => contentHasImages codec message.content) = true := by
  by_contra hnone
  have hzero : ∀ n ∈ messages.map fun message => imageParts codec message.content, n = 0 := by
    intro n hn
    obtain ⟨message, hmessage, rfl⟩ := List.mem_map.mp hn
    by_contra himages
    exact hnone (List.any_eq_true.mpr ⟨message, hmessage, contentHasImages_iff.mpr himages⟩)
  rw [requestImages, List.sum_eq_zero hzero] at h
  exact absurd h (Nat.lt_irrefl 0)

/-- One check among several. -/
theorem refuse_iff {c : Bool} {e : Failure ε} {rest : Except (Failure ε) Unit} :
    (if c = true then .error e else rest) = .ok () ↔ c = false ∧ rest = .ok () := by
  cases c with
  | false => exact (and_iff_right rfl).symm
  | true => exact iff_of_false nofun nofun

theorem validate_iff {request : ContextBudgetRequest codec images}
    (hcount : request.imageCount ≤ requestImages codec request.messages) :
    validateBudgetRequest codec images engine request = .ok () ↔
      validateGenerationRequest codec images engine request.chatRequest = .ok () := by
  have himages : ((request.messages.any fun message => contentHasImages codec message.content) ||
      decide (0 < request.imageCount)) =
        request.messages.any fun message => contentHasImages codec message.content := by
    by_cases hannounced : 0 < request.imageCount
    · rw [hasImages_of_requestImages (Nat.lt_of_lt_of_le hannounced hcount)]
      rfl
    · rw [decide_eq_false hannounced, Bool.or_false]
  have hadapter : ((none : Option Str).any (!·.isEmpty) && engine.supportsVision) = false := rfl
  unfold validateBudgetRequest validateGenerationRequest ContextBudgetRequest.chatRequest
  rw [himages, refuse_iff, refuse_iff, refuse_iff, refuse_iff, refuse_iff, hadapter]
  simp only [true_and]

theorem budgetReport_foretells (cfg : Option ModelConfig)
    (request : ContextBudgetRequest codec images) (normalized : List (Message ι))
    (analysis : PromptBudgetAnalysis π) :
    (budgetReport codec images cfg request normalized analysis).Foretells
      request.maxTokens analysis.promptTokens (contextLenOf cfg) := by
  refine ⟨rfl, ?_⟩
  unfold paramsFor
  dsimp only [budgetReport, safetyTokens]
  split
  · next params hparams =>
    split at hparams
    · cases hparams
    · next havailable =>
      cases hparams
      refine ⟨decide_eq_false (by omega), ?_⟩
      rw [max_eq_right (by omega)]
  · next e hparams =>
    split at hparams
    · exact decide_eq_true (by omega)
    · cases hparams

/-- The counter of the preflight, where no image is still to come. -/
theorem pendingImages_none {countTokens : π → Except (Failure ε) Int} {pending : Nat}
    (h : pending = 0) :
    (fun prompt => (countTokens prompt).map (· + pending * imageTokenReserve)) = countTokens := by
  funext prompt
  rw [h]
  rcases countTokens prompt with e | tokens
  · rfl
  · show Except.ok (tokens + ((0 : Nat) : Int) * imageTokenReserve) = .ok tokens
    simp

/-- **Preflight.** Where no more images are announced than the messages have, the preflight
reports exactly when the chat request gets a prompt, and foretells its generation. -/
theorem contextBudget_agrees (cfg : Option ModelConfig)
    (request : ContextBudgetRequest codec images)
    (hcount : request.imageCount ≤ requestImages codec request.messages) :
    Related
      (fun report prepared =>
        report.Foretells request.maxTokens prepared.2.2 (contextLenOf cfg))
      (contextBudget codec images dumpsIndented engine cfg request)
      (chatPrompt codec images dumpsIndented engine cfg request.chatRequest) := by
  refine Related.bind_check (validate_iff hcount) (Related.tryCatch ?_)
  refine Related.bind_same Returns.trivial fun systemOverride _ => ?_
  refine Related.bind_same Returns.trivial fun _ _ => ?_
  refine Related.bind_same (Returns.ofExcept fun _ hnormalized => hnormalized)
    fun normalized hnormalized => ?_
  have huser : ∀ message ∈ request.messages, imageParts codec message.content ≠ 0 →
      lower message.role = "user".toList := by
    intro message hmessage
    exact user_of_preflight request.accepted _ (List.mem_map_of_mem hmessage)
  have hpending : request.imageCount - actualImageCount normalized = 0 := by
    rw [actualImageCount_normalized huser hnormalized]
    exact Nat.sub_eq_zero_of_le hcount
  dsimp only
  rw [pendingImages_none hpending, ← analyzePromptBudget_answer, bind_map_left]
  refine Related.bind_same Returns.trivial fun analysis _ => ?_
  intro s
  exact budgetReport_foretells cfg request normalized analysis

/-- Images that are their URL, none of them too large. -/
def plainImages : ImageCodec Str where
  preflightDataUrl _ := .ok 3
  decodeDataUrl url := .ok url
  byteSize _ := 3
  pixelCount _ := 1
  repr _ := []

/-- An engine that renders the contents one after the other and counts characters. -/
def plainEngine : PromptEngine Str Unit Str where
  backend := "mock".toList
  supportsVision := true
  applyChatTemplate messages :=
    .ok (messages.flatMap fun message => plainText "[Image]".toList message.content)
  countTokens prompt := .ok prompt.length

/-- A question about one image, which is announced too. -/
def pictureRequest : ContextBudgetRequest JsonCodec.rejecting plainImages where
  model := ['m']
  messages := [
    { role := "user".toList
      content := .arr [.str "What is this?".toList,
        .obj [("type".toList, .str "image_url".toList), ("image_url".toList, .str ['u'])]] }]
  accepted := rfl
  imageCount := 1

theorem contextBudget_agrees_picture :
    Related
      (fun report prepared =>
        report.Foretells pictureRequest.maxTokens prepared.2.2 (contextLenOf none))
      (contextBudget JsonCodec.rejecting plainImages (fun _ => []) plainEngine none pictureRequest)
      (chatPrompt JsonCodec.rejecting plainImages (fun _ => []) plainEngine none
        pictureRequest.chatRequest) :=
  contextBudget_agrees (fun _ => []) none pictureRequest (by decide)

end

/-! ### Room for the output -/

/-- What the request handler grants. -/
theorem paramsFor_ok_iff (requested : Option Int) {tokens context : Int} :
    (∃ params, paramsFor requested tokens context = .ok params) ↔ tokens ≤ context - 9 := by
  unfold paramsFor
  dsimp only
  split
  · next hfull =>
    constructor
    · rintro ⟨params, h⟩
      cases h
    · intro hroom
      omega
  · next hroom =>
    constructor
    · intro _
      omega
    · intro _
      exact ⟨_, rfl⟩

theorem paramsFor_le {requested : Option Int} {tokens context : Int} {params : GenParams}
    (h : paramsFor requested tokens context = .ok params) :
    tokens + params.maxNewTokens ≤ context - 8 := by
  unfold paramsFor at h
  dsimp only at h
  split at h
  · cases h
  · obtain rfl := Except.ok.inj h
    show tokens + min _ (context - tokens - 8) ≤ context - 8
    omega

/-- A request, absent or positive, gets output that stays in the context. -/
def Generates (cfg : ModelConfig) (requestMaxTokens : Option Int) (promptTokens : Int) : Prop :=
  ∃ params, paramsFor requestMaxTokens promptTokens cfg.maxContextLen = .ok params ∧
    1 ≤ params.maxNewTokens ∧ promptTokens + params.maxNewTokens + 8 ≤ cfg.maxContextLen

theorem paramsFor_pos {requested : Option Int} {tokens context : Int} {params : GenParams}
    (hpos : ∀ n ∈ requested, 0 < n) (h : paramsFor requested tokens context = .ok params) :
    1 ≤ params.maxNewTokens := by
  unfold paramsFor at h
  dsimp only at h
  split at h
  · cases h
  · next hroom =>
    obtain rfl := Except.ok.inj h
    show 1 ≤ min _ (context - tokens - 8)
    rcases requested with - | n
    · show 1 ≤ min 512 (context - tokens - 8)
      omega
    · have hn : 0 < n := hpos n rfl
      rcases hcase : n with (- | k) | k
      · rw [hcase] at hn
        exact absurd hn (by simp)
      · show 1 ≤ min (Int.ofNat (k + 1)) (context - tokens - 8)
        have : (1 : Int) ≤ Int.ofNat (k + 1) := by
          rw [Int.ofNat_eq_natCast]
          omega
        omega
      · rw [hcase] at hn
        exact absurd hn (by simp)

theorem generates_iff {cfg : ModelConfig} {requested : Option Int} {tokens : Int}
    (hpos : ∀ n ∈ requested, 0 < n) :
    Generates cfg requested tokens ↔ tokens ≤ cfg.maxContextLen - 9 := by
  constructor
  · rintro ⟨params, hparams, -⟩
    exact (paramsFor_ok_iff requested).mp ⟨params, hparams⟩
  · intro hroom
    obtain ⟨params, hparams⟩ := (paramsFor_ok_iff requested).mpr hroom
    have htotal := paramsFor_le hparams
    exact ⟨params, hparams, paramsFor_pos hpos hparams, by omega⟩

/-- The budget rule of the catalog, for a model that generates. -/
theorem generation_budget {modelId : Str} {raw : List (Str × JsonValue)} {cfg : ModelConfig}
    (h : coerceEntry modelId raw = some cfg) (hbackend : cfg.backend ≠ .embeddings) :
    128 ≤ cfg.maxContextLen ∧ 1 ≤ cfg.maxOutputTokens ∧
      cfg.maxOutputTokens < cfg.maxContextLen := by
  obtain ⟨-, hcanonical⟩ := coerceEntry_canonical h
  have hbudget := hcanonical.budget
  refine ⟨hcanonical.context.1, ?_⟩
  unfold validBudget at hbudget
  rcases hcase : cfg.backend with - | - | -
  · rw [hcase, Bool.and_eq_true, decide_eq_true_eq, decide_eq_true_eq] at hbudget
    exact hbudget
  · exact absurd hcase hbackend
  · rw [hcase, Bool.and_eq_true, decide_eq_true_eq, decide_eq_true_eq] at hbudget
    exact hbudget

/-- **A model of the catalog generates for every prompt of its length exactly if its output limit
is above the tokens that are kept free.**  The prompt length leaves room for the output limit, and
the parameters take eight tokens off that room. -/
theorem catalog_generates_iff {modelId : Str} {raw : List (Str × JsonValue)} {cfg : ModelConfig}
    (h : coerceEntry modelId raw = some cfg) (hbackend : cfg.backend ≠ .embeddings) :
    (∀ (requested : Option Int) (promptTokens : Nat), (∀ n ∈ requested, 0 < n) →
        promptTokens ≤ cfg.maxPromptLen → Generates cfg requested promptTokens) ↔
      9 ≤ cfg.maxOutputTokens := by
  obtain ⟨hcontext, hlow, hhigh⟩ := generation_budget h hbackend
  constructor
  · intro hall
    have hlength : ((cfg.maxContextLen - cfg.maxOutputTokens).toNat : Int) =
        cfg.maxContextLen - cfg.maxOutputTokens := Int.toNat_of_nonneg (by omega)
    have hprompt : ((cfg.maxContextLen - cfg.maxOutputTokens).toNat : Int) ≤ cfg.maxPromptLen := by
      rw [hlength]
      exact le_max_left _ _
    have hnone : ∀ n ∈ (none : Option Int), 0 < n := fun n hn => absurd hn (by simp)
    have hroom := (generates_iff hnone).mp (hall none _ hnone hprompt)
    omega
  · intro houtput requested promptTokens hpos hprompt
    apply (generates_iff hpos).mpr
    have hlength : cfg.maxPromptLen = max (cfg.maxContextLen - cfg.maxOutputTokens) 64 := rfl
    omega

/-- An entry with its limits; the other fields have their defaults. -/
def limitsEntry (context output : Int) : List (Str × JsonValue) :=
  [("max_context_len".toList, .int context), ("max_output_tokens".toList, .int output)]

def limitsConfig (context output : Int) : ModelConfig where
  id := "m".toList
  name := "m".toList
  description := []
  backend := .genai
  modelPath := "models/openvino/m".toList
  sourceModel := []
  weightFormat := .int4
  recommendedDevice := "NPU".toList
  maxContextLen := context
  maxOutputTokens := output

theorem catalog_generates_iff_nine :
    (∀ (requested : Option Int) (promptTokens : Nat), (∀ n ∈ requested, 0 < n) →
        promptTokens ≤ (limitsConfig 128 9).maxPromptLen →
          Generates (limitsConfig 128 9) requested promptTokens) ↔
      9 ≤ (limitsConfig 128 9).maxOutputTokens :=
  catalog_generates_iff
    (rfl : coerceEntry "m".toList (limitsEntry 128 9) = some (limitsConfig 128 9)) (by decide)

/-- With an output limit of eight tokens the longest prompt is refused. -/
theorem refuses_longest_prompt :
    ¬ ∀ (modelId : Str) (raw : List (Str × JsonValue)) (cfg : ModelConfig),
      coerceEntry modelId raw = some cfg → cfg.backend ≠ .embeddings →
        ∀ (requested : Option Int) (promptTokens : Nat), (∀ n ∈ requested, 0 < n) →
          promptTokens ≤ cfg.maxPromptLen → Generates cfg requested promptTokens := by
  intro h
  have hlisted : coerceEntry "m".toList (limitsEntry 128 8) = some (limitsConfig 128 8) := rfl
  obtain ⟨params, hparams, -⟩ :=
    h "m".toList (limitsEntry 128 8) (limitsConfig 128 8) hlisted (by decide) none 120 (by simp)
      (by decide)
  cases hparams

end InferBridge
