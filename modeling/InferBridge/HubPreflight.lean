/-
InferBridge/HubPreflight.lean

The gate before the conversion of a model from the hub, and the two routes behind it
(`HuggingFacePreflightMiddleware` in app/huggingface_access.py, `convert_model` and
`download_custom` in app/server.py).

The gate reads the body of a request for itself: it decodes it as UTF-8 and parses the
text.  The route parses the bytes, which may be in any of the encodings that `json`
detects.  The gate then asks for the access to the source model, unless it takes the
request for a trusted one, or does not know what to ask for.

Design.  A text is its code points, since a JSON text may have lone surrogates.  What
the JSON grammar and pydantic's coercions say of a value is a parameter.

Main result.  `serve`: the gate in front of the route.
-/
import Mathlib

namespace InferBridge.HubPreflight

abbrev Bytes := List UInt8

/-- A text: its code points. -/
abbrev PyStr := List ℕ

def points (s : String) : PyStr := s.toList.map Char.toNat

/-! ### Encodings -/

/-- A byte behind the first one of a character. -/
def isTail (b : UInt8) : Bool := 0x80 ≤ b.toNat && b.toNat < 0xC0

/-- The code points of bytes in UTF-8, with lone surrogates let through. -/
def utf8Points : Bytes → Option PyStr
  | [] => some []
  | b :: rest =>
    if b.toNat < 0x80 then (utf8Points rest).map (b.toNat :: ·)
    else if 0xC2 ≤ b.toNat ∧ b.toNat < 0xE0 then
      match rest with
      | c :: rest =>
        if isTail c then
          (utf8Points rest).map ((64 * (b.toNat % 32) + c.toNat % 64) :: ·)
        else none
      | _ => none
    else if 0xE0 ≤ b.toNat ∧ b.toNat < 0xF0 then
      match rest with
      | c :: d :: rest =>
        if isTail c ∧ isTail d ∧ (b.toNat = 0xE0 → 0xA0 ≤ c.toNat) then
          (utf8Points rest).map
            ((4096 * (b.toNat % 16) + 64 * (c.toNat % 64) + d.toNat % 64) :: ·)
        else none
      | _ => none
    else if 0xF0 ≤ b.toNat ∧ b.toNat < 0xF5 then
      match rest with
      | c :: d :: e :: rest =>
        if isTail c ∧ isTail d ∧ isTail e ∧ (b.toNat = 0xF0 → 0x90 ≤ c.toNat) ∧
            (b.toNat = 0xF4 → c.toNat < 0x90) then
          (utf8Points rest).map ((262144 * (b.toNat % 8) + 4096 * (c.toNat % 64) +
            64 * (d.toNat % 64) + e.toNat % 64) :: ·)
        else none
      | _ => none
    else none

def isSurrogate (n : ℕ) : Bool := 0xD800 ≤ n && n < 0xE000

/-- `body.decode("utf-8")` -/
def utf8Strict (bytes : Bytes) : Option PyStr :=
  (utf8Points bytes).filter fun text => !text.any isSurrogate

/-- The units of bytes in UTF-16. -/
def utf16Units (bigEndian : Bool) : Bytes → Option (List ℕ)
  | a :: b :: rest =>
    (utf16Units bigEndian rest).map
      ((if bigEndian then 256 * a.toNat + b.toNat else 256 * b.toNat + a.toNat) :: ·)
  | [_] => none
  | [] => some []

/-- Units with their surrogate pairs joined. -/
def joinPairs : List ℕ → PyStr
  | high :: low :: rest =>
    if (0xD800 ≤ high ∧ high < 0xDC00) ∧ 0xDC00 ≤ low ∧ low < 0xE000 then
      (0x10000 + 0x400 * (high - 0xD800) + (low - 0xDC00)) :: joinPairs rest
    else high :: joinPairs (low :: rest)
  | rest => rest

def utf16Points (bigEndian : Bool) (bytes : Bytes) : Option PyStr :=
  (utf16Units bigEndian bytes).map joinPairs

def utf32Points (bigEndian : Bool) : Bytes → Option PyStr
  | a :: b :: c :: d :: rest =>
    let bytes := if bigEndian then [a, b, c, d] else [d, c, b, a]
    let n := bytes.foldl (fun n byte => 256 * n + byte.toNat) 0
    if n < 0x110000 then (utf32Points bigEndian rest).map (n :: ·) else none
  | [] => some []
  | _ => none

inductive Encoding where
  | utf8
  | utf8Sig
  | utf16
  | utf16be
  | utf16le
  | utf32
  | utf32be
  | utf32le
deriving DecidableEq, Repr

/-- `json.detect_encoding` -/
def detectEncoding (bytes : Bytes) : Encoding :=
  if [0, 0, 0xFE, 0xFF].isPrefixOf bytes || [0xFF, 0xFE, 0, 0].isPrefixOf bytes then .utf32
  else if [0xFE, 0xFF].isPrefixOf bytes || [0xFF, 0xFE].isPrefixOf bytes then .utf16
  else if [0xEF, 0xBB, 0xBF].isPrefixOf bytes then .utf8Sig
  else
    match bytes with
    | a :: b :: c :: d :: _ =>
      if a = 0 then if b ≠ 0 then .utf16be else .utf32be
      else if b = 0 then if c ≠ 0 ∨ d ≠ 0 then .utf16le else .utf32le
      else .utf8
    | [a, b] => if a = 0 then .utf16be else if b = 0 then .utf16le else .utf8
    | _ => .utf8

/-- `bytes.decode(encoding, "surrogatepass")` -/
def decode (encoding : Encoding) (bytes : Bytes) : Option PyStr :=
  match encoding with
  | .utf8 => utf8Points bytes
  | .utf8Sig => utf8Points (bytes.drop 3)
  | .utf16 => utf16Points ([0xFE, 0xFF].isPrefixOf bytes) (bytes.drop 2)
  | .utf16be => utf16Points true bytes
  | .utf16le => utf16Points false bytes
  | .utf32 => utf32Points ([0, 0, 0xFE, 0xFF].isPrefixOf bytes) (bytes.drop 4)
  | .utf32be => utf32Points true bytes
  | .utf32le => utf32Points false bytes

/-! ### Values -/

inductive Json where
  | null
  | bool (value : Bool)
  | int (value : ℤ)
  | float (value : ℚ)
  | str (value : PyStr)
  | arr (items : List Json)
  | obj (fields : List (PyStr × Json))

abbrev Fields := List (PyStr × Json)

def Json.truthy : Json → Bool
  | .null => false
  | .bool value => value
  | .int value => value ≠ 0
  | .float value => value ≠ 0
  | .str value => value ≠ []
  | .arr items => !items.isEmpty
  | .obj fields => !fields.isEmpty

def Json.isTrue : Json → Bool
  | .bool true => true
  | _ => false

/-- `payload.get(key)` -/
def get (payload : Fields) (key : String) : Option Json := payload.lookup (points key)

/-- What the libraries say: the JSON grammar, which has no null character but in an escape;
`str` of a value; the coercions of pydantic, which takes `true` as it is; the device grammar; the
digest of a token. -/
structure Host where
  parse : PyStr → Option Json
  parse_null : ∀ text value, parse text = some value → 0 ∉ text.take 2
  str : Json → PyStr
  str_text : ∀ text, str (.str text) = text
  int : Json → Option ℤ
  float : Json → Option ℚ
  bool : Json → Option Bool
  bool_true : bool (.bool true) = some true
  device : PyStr → Option PyStr
  fingerprint : Option PyStr → PyStr

section
variable (host : Host)

/-- `json.loads` of a text, which may not begin with a byte order mark -/
def loadsText (text : PyStr) : Option Json :=
  if text.head? = some 0xFEFF then none else host.parse text

/-- `json.loads` of bytes -/
def loadsBytes (bytes : Bytes) : Option Json :=
  (decode (detectEncoding bytes) bytes).bind host.parse

/-! ### The requests -/

/-- A text field; pydantic takes no lone surrogates. -/
def textField : Json → Option PyStr
  | .str value => if value.any isSurrogate then none else some value
  | _ => none

def orNull {α : Type} (validate : Json → Option α) : Json → Option (Option α)
  | .null => some none
  | value => (validate value).map some

def required {α : Type} (validate : Json → Option α) (payload : Fields) (key : String) : Option α :=
  (get payload key).bind validate

def withDefault {α : Type} (validate : Json → Option α) (default : α) (payload : Fields)
    (key : String) : Option α :=
  match get payload key with
  | none => some default
  | some value => validate value

/-- A text with a length in these bounds. -/
def sized (low high : ℕ) (value : Json) : Option PyStr :=
  (textField value).filter fun text => low ≤ text.length ∧ text.length ≤ high

def isOneOf (texts : List String) (value : Json) : Option PyStr :=
  (textField value).filter fun text => (texts.map points).contains text

def isAlphanumeric (n : ℕ) : Bool :=
  (48 ≤ n && n ≤ 57) || (65 ≤ n && n ≤ 90) || (97 ≤ n && n ≤ 122)

/-- `[A-Za-z0-9_.-]` -/
def isNameChar (n : ℕ) : Bool := isAlphanumeric n || n = 95 || n = 46 || n = 45

/-- `^[A-Za-z0-9][A-Za-z0-9_.-]*$` -/
def isName : PyStr → Bool
  | [] => false
  | c :: rest => isAlphanumeric c && rest.all isNameChar

def formats : List String := ["int4", "int8", "fp16"]

def groupSize (value : Json) : Option ℤ := (host.int value).filter fun n => -1 ≤ n

def ratio (value : Json) : Option ℚ := (host.float value).filter fun x => 0 ≤ x ∧ x ≤ 1

structure ModelConvertRequest where
  model : PyStr
  device : Option PyStr
  loadAfter : Bool
  weightFormat : Option PyStr
  groupSize : Option ℤ
  ratio : Option ℚ
  sym : Option Bool
  trustRemoteCode : Option Bool

/-- `ModelConvertRequest.model_validate` -/
def ModelConvertRequest.validate (payload : Fields) : Option ModelConvertRequest := do
  let model ← required textField payload "model"
  let device ← withDefault (orNull textField) none payload "device"
  let loadAfter ← withDefault host.bool true payload "load_after"
  let weightFormat ← withDefault (orNull (isOneOf formats)) none payload "weight_format"
  let groupSize ← withDefault (orNull (HubPreflight.groupSize host)) none payload "group_size"
  let ratio ← withDefault (orNull (HubPreflight.ratio host)) none payload "ratio"
  let sym ← withDefault (orNull host.bool) none payload "sym"
  let trustRemoteCode ← withDefault (orNull host.bool) none payload "trust_remote_code"
  return { model, device, loadAfter, weightFormat, groupSize, ratio, sym, trustRemoteCode }

structure DownloadCustomRequest where
  modelId : PyStr
  name : PyStr
  sourceModel : PyStr
  backend : PyStr
  weightFormat : PyStr
  groupSize : Option ℤ
  ratio : Option ℚ
  sym : Option Bool
  recommendedDevice : PyStr
  maxContextLen : ℤ
  maxOutputTokens : ℤ
  description : Option PyStr
  loadAfter : Bool
  trustRemoteCode : Bool

def backends : List String := ["openvino-genai", "openvino-embeddings", "openvino-vlm"]

def between (low high : ℤ) (value : Json) : Option ℤ :=
  (host.int value).filter fun n => low ≤ n ∧ n ≤ high

/-- `validate_token_budget` -/
def tokenBudget (backend : PyStr) (maxContextLen maxOutputTokens : ℤ) : Bool :=
  if backend = points "openvino-embeddings" then maxOutputTokens = 0
  else 1 ≤ maxOutputTokens && maxOutputTokens < maxContextLen

/-- `DownloadCustomRequest.model_validate` -/
def DownloadCustomRequest.validate (payload : Fields) : Option DownloadCustomRequest := do
  let modelId ← required (fun value => (sized 1 128 value).filter isName) payload "model_id"
  let name ← required (sized 1 160) payload "name"
  let sourceModel ← required (sized 1 240) payload "source_model"
  let backend ← withDefault (isOneOf backends) (points "openvino-genai") payload "backend"
  let weightFormat ← withDefault (isOneOf formats) (points "int4") payload "weight_format"
  let groupSize ← withDefault (orNull (HubPreflight.groupSize host)) none payload "group_size"
  let ratio ← withDefault (orNull (HubPreflight.ratio host)) none payload "ratio"
  let sym ← withDefault (orNull host.bool) none payload "sym"
  let recommendedDevice ← withDefault (fun value => (sized 1 64 value).bind host.device)
    (points "CPU") payload "recommended_device"
  let maxContextLen ← withDefault (between host 128 262144) 2048 payload "max_context_len"
  let maxOutputTokens ← withDefault (between host 0 65536) 512 payload "max_output_tokens"
  let description ← withDefault (orNull textField) none payload "description"
  let loadAfter ← withDefault host.bool true payload "load_after"
  let trustRemoteCode ← withDefault host.bool false payload "trust_remote_code"
  if tokenBudget backend maxContextLen maxOutputTokens then
    return { modelId, name, sourceModel, backend, weightFormat, groupSize, ratio, sym
             recommendedDevice, maxContextLen, maxOutputTokens, description, loadAfter
             trustRemoteCode }
  else none

/-! ### The routes -/

structure ModelConfig where
  name : PyStr
  sourceModel : PyStr
  backend : PyStr
  weightFormat : PyStr
  recommendedDevice : PyStr
  maxContextLen : ℤ
  maxOutputTokens : ℤ
  trustRemoteCode : Bool

/-- The manager: its catalog, which models are loaded, whose context is being changed, what was
stored about the access to them, and whether a new entry can be saved. -/
structure Manager where
  catalog : PyStr → Option ModelConfig
  loaded : PyStr → Bool
  contextChanges : PyStr → Bool
  accessMetadata : PyStr → Option PyStr
  saves : Bool

inductive Path where
  | convert
  | downloadCustom
deriving DecidableEq, Repr

/-- A POST to one of the two paths. -/
structure Request where
  path : Path
  authorized : Bool
  safeOrigin : Bool
  body : Bytes

/-- A call of `schedule_convert`. -/
structure Scheduled where
  model : PyStr
  source : PyStr
  requestTrust : Bool
  entryTrust : Bool
  loaded : Bool
deriving DecidableEq, Repr

/-- The fields of the entry that differ from the request. -/
def mismatch (config : ModelConfig) (request : DownloadCustomRequest) : Bool :=
  config.name ≠ request.name || config.sourceModel ≠ request.sourceModel ||
    config.backend ≠ request.backend || config.weightFormat ≠ request.weightFormat ||
    config.recommendedDevice ≠ request.recommendedDevice ||
    config.maxContextLen ≠ request.maxContextLen ||
    config.maxOutputTokens ≠ request.maxOutputTokens ||
    config.trustRemoteCode ≠ request.trustRemoteCode

/-- `register_model` -/
def register (request : DownloadCustomRequest) : ModelConfig where
  name := request.name
  sourceModel := request.sourceModel
  backend := request.backend
  weightFormat := request.weightFormat
  recommendedDevice := request.recommendedDevice
  maxContextLen := request.maxContextLen
  maxOutputTokens := request.maxOutputTokens
  trustRemoteCode := request.trustRemoteCode

/-- The catalog's entry, if it matches the request, or a new one. -/
def Manager.entryFor (manager : Manager) (request : DownloadCustomRequest) : Option ModelConfig :=
  match manager.catalog request.modelId with
  | some config => if mismatch config request then none else some config
  | none => if manager.saves then some (register request) else none

/-- `convert_model`, to its call of the scheduler -/
def convertModel (manager : Manager) (payload : Fields) : Option Scheduled := do
  let request ← ModelConvertRequest.validate host payload
  let config ← manager.catalog request.model
  if manager.contextChanges request.model then none
  else if request.device.any fun device => (host.device device).isNone then none
  else if config.sourceModel = [] then none
  else
    return { model := request.model, source := config.sourceModel
             requestTrust := request.trustRemoteCode = some true
             entryTrust := config.trustRemoteCode, loaded := manager.loaded request.model }

/-- `download_custom`, to its call of the scheduler -/
def downloadCustom (manager : Manager) (payload : Fields) : Option Scheduled := do
  let request ← DownloadCustomRequest.validate host payload
  let config ← manager.entryFor request
  if (host.device request.recommendedDevice).isNone then none
  else
    return { model := request.modelId, source := config.sourceModel
             requestTrust := request.trustRemoteCode, entryTrust := config.trustRemoteCode
             loaded := manager.loaded request.modelId }

/-- The route: the body is parsed and has to be an object. -/
def route (manager : Manager) (request : Request) : Option Scheduled :=
  if request.authorized then
    match loadsBytes host request.body with
    | some (.obj payload) =>
      match request.path with
      | .convert => convertModel host manager payload
      | .downloadCustom => downloadCustom host manager payload
    | _ => none
  else none

/-! ### The access check -/

inductive AccessCode where
  | granted
  | tokenMissing
  | tokenInvalid
  | rateLimited
  | networkError
  | approvalRequired
  | modelNotFound
  | accessDenied
deriving DecidableEq, Repr

/-- The service: the token, the clock, the cache by repository, token and type, and what the hub
answers: of the token, and of a repository, if it answers. -/
structure Service where
  token : Option PyStr
  now : ℚ
  cache : PyStr × PyStr × PyStr → Option (ℚ × AccessCode)
  tokenTest : AccessCode
  probe : PyStr → Option ℕ

/-- White space of `str.strip` -/
def isSpace (n : ℕ) : Bool :=
  (9 ≤ n ∧ n ≤ 13) ∨ (28 ≤ n ∧ n ≤ 32) ∨ n = 0x85 ∨ n = 0xA0 ∨ n = 0x1680 ∨
    (0x2000 ≤ n ∧ n ≤ 0x200A) ∨ n = 0x2028 ∨ n = 0x2029 ∨ n = 0x202F ∨ n = 0x205F ∨ n = 0x3000

def strip (text : PyStr) : PyStr := (text.dropWhile isSpace).rdropWhile isSpace

/-- `_HF_REPO_RE` -/
def isRepo (text : PyStr) : Bool :=
  let owner := text.takeWhile (· ≠ 47)
  let model := (text.drop owner.length).drop 1
  text.contains 47 && isName owner && owner.length ≤ 96 && isName model && model.length ≤ 160

/-- `_safe_repo_id`; `none` where it raises -/
def safeRepoId (value : PyStr) : Option PyStr :=
  let repo := strip value
  if isRepo repo then some repo else none

/-- ASCII lower case -/
def lower (text : PyStr) : PyStr := text.map fun n => if 65 ≤ n && n ≤ 90 then n + 32 else n

def accessTypes : List PyStr := [points "public", points "gated", points "unknown"]

def normalizedType (accessType : PyStr) : PyStr :=
  let accessType := lower (strip (if accessType = [] then points "unknown" else accessType))
  if accessTypes.contains accessType then accessType else points "unknown"

/-- What the status of the probe says. -/
def statusCode (token : Option PyStr) (status : ℕ) : AccessCode :=
  if status = 200 ∨ status = 206 then .granted
  else if status = 429 then .rateLimited
  else if status = 401 ∨ status = 403 then
    if token.isSome then .approvalRequired else .tokenMissing
  else if status = 404 then .modelNotFound
  else if 500 ≤ status then .networkError
  else .accessDenied

/-- `preflight`; `none` where it raises -/
def preflight (service : Service) (sourceModel accessType : PyStr) :
    Option (AccessCode × Service) := do
  let repo ← safeRepoId sourceModel
  let accessType := normalizedType accessType
  let key := (repo, host.fingerprint service.token, accessType)
  if accessType = points "gated" ∧ service.token = none then
    return (.tokenMissing, service)
  else
    match (service.cache key).filter fun cached => service.now - cached.1 < 60 with
    | some cached => return (cached.2, service)
    | none =>
      if service.token ≠ none ∧ service.tokenTest ≠ .granted then
        return (service.tokenTest, service)
      else
        let code := match service.probe repo with
          | none => .networkError
          | some status => statusCode service.token status
        return (code, { service with
          cache := Function.update service.cache key (some (service.now, code)) })

/-! ### The gate -/

/-- The gate answers itself, or hands on, with the source model that was granted, if it asked. -/
inductive Gate where
  | answered
  | delegated (granted : Option PyStr)
deriving DecidableEq, Repr

def knownGated : List PyStr :=
  [points "meta-llama/Llama-3.2-3B-Instruct", points "meta-llama/Llama-3.2-1B-Instruct",
    points "meta-llama/Llama-3.1-8B-Instruct", points "google/gemma-2-2b-it"]

/-- `_metadata_for_model`: the access type -/
def accessType (manager : Manager) (model : Option PyStr) (source : PyStr) : PyStr :=
  match manager.accessMetadata (model.getD []) with
  | some accessType => accessType
  | none => if knownGated.contains source then points "gated" else points "unknown"

/-- `str(first or second or "").strip()` -/
def firstText (values : List (Option Json)) : PyStr :=
  match values.find? fun value => value.any Json.truthy with
  | some (some value) => strip (host.str value)
  | _ => []

/-- The model that the gate takes a custom download for. -/
def namedModel (payload : Fields) : Option PyStr :=
  let model := firstText host [get payload "model", get payload "model_id"]
  if model = [] then none else some model

/-- The model whose entry is not loaded and its source, if the gate asks for a conversion. -/
def convertTarget (manager : Manager) (payload : Fields) : Option (PyStr × PyStr) := do
  let request ← ModelConvertRequest.validate host payload
  if request.device.any fun device => (host.device device).isNone then none
  else
    let config ← manager.catalog request.model
    if manager.loaded request.model then none else return (request.model, config.sourceModel)

/-- The check of a source model, unless the request is trusted or there is none. -/
def check (manager : Manager) (service : Service) (trusted : Bool) (model : Option PyStr)
    (source : PyStr) : Gate :=
  if trusted then .delegated none
  else if source = [] then .delegated none
  else
    match preflight host service source (accessType manager model source) with
    | some (.granted, _) => .delegated (some source)
    | _ => .answered

/-- `payload.get("trust_remote_code") is True` -/
def saysTrusted (payload : Fields) : Bool := (get payload "trust_remote_code").any Json.isTrue

/-- The gate, once it has a payload. -/
def gatePayload (manager : Manager) (service : Service) (path : Path) (payload : Fields) : Gate :=
  match path with
  | .convert =>
    match convertTarget host manager payload with
    | none => .delegated none
    | some (model, source) =>
      check host manager service (saysTrusted payload) (some model) source
  | .downloadCustom =>
    let model := namedModel host payload
    let config := model.bind manager.catalog
    check host manager service (saysTrusted payload || config.any (·.trustRemoteCode)) model
      (firstText host [get payload "source_model"])

/-- `HuggingFacePreflightMiddleware` -/
def gate (manager : Manager) (service : Service) (request : Request) : Gate :=
  if !request.authorized then .delegated none
  else if !request.safeOrigin then .answered
  else
    match (utf8Strict request.body).bind (loadsText host) with
    | some (.obj payload) => gatePayload host manager service request.path payload
    | _ => .delegated none

/-- The request through the gate and its route: the call of the scheduler that it reaches, and
the source model that the gate was granted. -/
def serve (manager : Manager) (service : Service) (request : Request) :
    Option (Scheduled × Option PyStr) :=
  match gate host manager service request with
  | .answered => none
  | .delegated granted => (route host manager request).map fun scheduled => (scheduled, granted)

end

end InferBridge.HubPreflight
