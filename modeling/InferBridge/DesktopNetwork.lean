/-
InferBridge/DesktopNetwork.lean

Host, browser origins and key of the packaged desktop server
(app/desktop_network.py, app/desktop_credential_safety.py), and what the
server makes of the key (app/server.py, app/network_exposure_safety.py).

The address parser, the URL parser and the table of printable characters
belong to the host language and are parameters (`Platform`); no result
depends on them.  The key file is represented by the text it decrypts to,
the state file by the two fields that are read here.  Each write either
happens as a whole or fails and leaves the file as it is.

The resolver falls back to the loopback host and to no origins where there
is no key, and it calls any text that is not blank a key.  The server splits
the key at commas and drops blank items, so that a text of commas alone is no
key for it.  Main result: `desktop_exposure_authenticated`, the exact inputs
on which an exposed server has a key, after any sequence of updates.
-/
import InferBridge.Catalog
import InferBridge.Lib.Transition

namespace InferBridge

open Text

/-! ### Parameters of the host language -/

/-- What `urlsplit` returns. -/
structure SplitResult where
  scheme : Str
  username : Option Str
  password : Option Str
  hostname : Option Str
  port : Option Nat
  path : Str
  query : Str
  fragment : Str
deriving DecidableEq, Repr

structure Platform where
  /-- `ipaddress.ip_address(clean).is_loopback`; `none` where the text is no address -/
  isLoopbackAddress : Str → Option Bool
  /-- `none` where the text or its port is refused -/
  urlsplit : Str → Option SplitResult
  isPrintable : Char → Bool
  /-- `os.name == "nt"` -/
  windows : Bool

variable (platform : Platform)

/-! ### The stored key -/

/-- `DesktopApiKeyStore`: the text that the key file decrypts to, if it does, and the key in
memory. -/
structure DesktopApiKeyStore where
  stored : Option Str
  memoryKey : Option Str
deriving DecidableEq, Repr

/-- What an update may raise. -/
inductive UpdateError where
  | value (message : Str)
  | os
deriving DecidableEq, Repr

namespace DesktopApiKeyStore

def validateUserKey (value : Str) : Except Str Str :=
  let key := strip isSpace value
  if ¬ (24 ≤ key.length ∧ key.length ≤ 512) then
    .error "API keys entered in the desktop UI must be 24 to 512 characters.".toList
  else if key.any fun c => isSpace c || !platform.isPrintable c then
    .error "API keys cannot contain whitespace or control characters.".toList
  else if ',' ∈ key then
    .error "The desktop UI stores one API key. Comma-separated keys are environment-only.".toList
  else .ok key

/-- `generate`, from a random token. -/
def generate (token : Str) : Str := "ib_".toList ++ token

def storedKey (store : DesktopApiKeyStore) : Option Str :=
  if platform.windows then store.stored.bind fun text => (validateUserKey platform text).toOption
  else none

def getKey (store : DesktopApiKeyStore) : Option Str × DesktopApiKeyStore :=
  match store.memoryKey.filter (· ≠ []) with
  | some key => (some key, store)
  | none =>
    match storedKey platform store with
    | some key => (some key, { store with memoryKey := some key })
    | none => (none, store)

/-- `fails`: encryption or the write of the file raises. -/
def setKey (store : DesktopApiKeyStore) (value : Str) (fails : Bool) :
    Except UpdateError DesktopApiKeyStore :=
  match validateUserKey platform value with
  | .error message => .error (.value message)
  | .ok key =>
    if ¬ platform.windows then .ok { store with memoryKey := some key }
    else if fails then .error .os
    else .ok { stored := some key, memoryKey := some key }

/-- `remove_with_verified_delete` -/
def remove (fails : Bool) : Except UpdateError DesktopApiKeyStore :=
  if fails then .error .os else .ok { stored := none, memoryKey := none }

end DesktopApiKeyStore

/-! ### Host and origins -/

def loopbackBindHost : Str := "127.0.0.1".toList

def lanBindHost : Str := "0.0.0.0".toList

def loopbackHosts : List Str := ["127.0.0.1".toList, "localhost".toList, "::1".toList]

def cleanHost (value : Str) : Str := strip isSpace value

def isLoopbackHost (host : Str) : Bool :=
  let clean := strip (fun c => c = '[' ∨ c = ']') (lower (cleanHost host))
  loopbackHosts.contains clean || (platform.isLoopbackAddress clean).getD false

def bindExposesNetwork (host : Str) : Bool := !isLoopbackHost platform host

/-- The items of a comma-separated text, stripped, without the blank ones. -/
def commaItems (text : Str) : List Str :=
  ((text.splitOn ',').map (strip isSpace)).filter (· ≠ [])

/-- The scheme, host and port of one origin. -/
def normalizeOrigin (normalized : List Str) (origin : Str) : Except Str (List Str) :=
  match platform.urlsplit origin with
  | none => .error ("Invalid browser origin: ".toList ++ origin)
  | some parsed =>
    let host := parsed.hostname.getD []
    if parsed.scheme ∉ ["http".toList, "https".toList] ∨ host = [] then
      .error "Browser origins must be complete http:// or https:// origins.".toList
    else if parsed.username.getD [] ≠ [] ∨ parsed.password.getD [] ≠ [] ∨ parsed.query ≠ [] ∨
        parsed.fragment ≠ [] then
      .error
        "Browser origins cannot contain credentials, query strings, or fragments.".toList
    else if parsed.path ∉ [[], ['/']] then
      .error "Browser origins cannot contain URL paths.".toList
    else
      let host := if ':' ∈ host ∧ ¬ ['['] <+: host then '[' :: host ++ [']'] else host
      let port := match parsed.port with
        | none => []
        | some port => ':' :: (toString port).toList
      let candidate := parsed.scheme ++ "://".toList ++ host ++ port
      if candidate ∈ normalized then .ok normalized else .ok (normalized ++ [candidate])

def normalizeCorsOrigins (value : Str) : Except Str Str :=
  let raw := strip isSpace value
  if raw = [] then .ok []
  else
    let parts := commaItems raw
    if parts = [] then .ok []
    else if ['*'] ∈ parts then
      if parts.length ≠ 1 then
        .error "Wildcard CORS must be used by itself, not mixed with explicit origins.".toList
      else .ok ['*']
    else do
      let normalized ← parts.foldlM (normalizeOrigin platform) []
      .ok ([','].intercalate normalized)

/-! ### Resolution -/

/-- The three variables that are read. -/
structure Environment where
  host : Option Str
  corsOrigins : Option Str
  apiKey : Option Str
deriving DecidableEq, Repr

/-- `lan_access_enabled` and `network_cors_origins` of the saved state. -/
structure DesktopState where
  lanAccessEnabled : Bool
  networkCorsOrigins : Str
deriving DecidableEq, Repr

inductive SettingSource where
  | environment
  | desktopSetting
  | securityFallback
  | default
deriving DecidableEq, Repr

inductive ApiKeySource where
  | environment
  | secureStore
deriving DecidableEq, Repr

/-- The fields of `Settings` that are resolved here. -/
structure NetworkSettings where
  host : Str
  corsOrigins : Str
  apiKey : Option Str
deriving DecidableEq, Repr

/-- `replace`: what is `None` stays as it was. -/
def NetworkSettings.replace (base : NetworkSettings) (host corsOrigins : Str)
    (apiKey : Option Str) : NetworkSettings :=
  { host, corsOrigins, apiKey := apiKey.or base.apiKey }

structure DesktopNetworkResolution where
  settings : NetworkSettings
  hostSource : SettingSource
  corsSource : SettingSource
  apiKeySource : Option ApiKeySource
  lanBlockedReason : Option Str
  corsBlockedReason : Option Str
deriving DecidableEq, Repr

def resolveDesktopBindHost (state : DesktopState) (env : Environment) : Str × SettingSource :=
  let configured := cleanHost (env.host.getD [])
  if configured ≠ [] then (configured, .environment)
  else if state.lanAccessEnabled then (lanBindHost, .desktopSetting)
  else (loopbackBindHost, .default)

/-- The origins before the key is looked at. -/
def resolveCors (state : DesktopState) (env : Environment) : Str × SettingSource × Option Str :=
  match env.corsOrigins with
  | some value =>
    match normalizeCorsOrigins platform value with
    | .ok cors => (cors, .environment, none)
    | .error message =>
      ([], .securityFallback,
        some ("OV_LLM_CORS_ORIGINS was not applied in packaged mode: ".toList
          ++ message.take 220))
  | none =>
    match normalizeCorsOrigins platform state.networkCorsOrigins with
    | .ok cors => (cors, if cors ≠ [] then .desktopSetting else .default, none)
    | .error message =>
      ([], .securityFallback,
        some ("Saved browser origins were not applied: ".toList ++ message.take 220))

def resolveApiKey (env : Environment) (store : DesktopApiKeyStore) :
    (Option Str × Option ApiKeySource) × DesktopApiKeyStore :=
  match env.apiKey with
  | some value =>
    let key := strip isSpace value
    if key ≠ [] then ((some key, some .environment), store) else ((none, none), store)
  | none =>
    match store.getKey platform with
    | (some key, store) => ((some key, some .secureStore), store)
    | (none, store) => ((none, none), store)

def environmentBlocked : Str :=
  ("OV_LLM_HOST requests network exposure, but no API key is configured. " ++
    "InferBridge stayed on 127.0.0.1 until authentication is configured.").toList

def storeBlocked : Str :=
  ("LAN access was requested, but the stored API key is unavailable. InferBridge " ++
    "stayed on 127.0.0.1 until a new API key is configured.").toList

def wildcardBlocked : Str :=
  ("Wildcard CORS was requested without API authentication. InferBridge kept CORS " ++
    "disabled until an API key is configured.").toList

def resolveDesktopNetworkSettings (base : NetworkSettings) (env : Environment)
    (state : DesktopState) (store : DesktopApiKeyStore) : DesktopNetworkResolution × DesktopApiKeyStore :=
  let (host, hostSource) := resolveDesktopBindHost state env
  let (cors, corsSource, corsBlockedReason) := resolveCors platform state env
  let ((apiKey, apiKeySource), store) := resolveApiKey platform env store
  let (host, hostSource, lanBlockedReason) :=
    if bindExposesNetwork platform host ∧ apiKey = none then
      (loopbackBindHost, .securityFallback,
        some (if hostSource = .environment then environmentBlocked else storeBlocked))
    else (host, hostSource, none)
  let (cors, corsSource, corsBlockedReason) :=
    if cors = ['*'] ∧ apiKey = none then ([], .securityFallback, some wildcardBlocked)
    else (cors, corsSource, corsBlockedReason)
  ({ settings := base.replace host cors apiKey
     hostSource, corsSource, apiKeySource, lanBlockedReason, corsBlockedReason }, store)

/-! ### Updates -/

structure DesktopNetworkUpdateRequest where
  allowLan : Bool
  corsOrigins : Str
  apiKey : Option Str
  generateApiKey : Bool
  removeStoredApiKey : Bool
  acknowledgeWildcardCors : Bool
deriving DecidableEq, Repr

/-- Which writes of an update fail. -/
structure UpdateFailures where
  state : Option UpdateError
  credential : Bool
deriving DecidableEq, Repr

/-- What `DesktopNetworkService` reads and writes. -/
structure DesktopNetworkService where
  state : DesktopState
  store : DesktopApiKeyStore
deriving DecidableEq, Repr

namespace DesktopNetworkUpdateRequest

variable (request : DesktopNetworkUpdateRequest)

/-- `request.api_key`, where it is not empty. -/
def enteredKey : Option Str := request.apiKey.filter (· ≠ [])

/-- What is asked about the key contradicts itself or the environment. -/
def check (env : Environment) : Except UpdateError Unit :=
  if request.enteredKey.isSome ∧ request.generateApiKey then
    .error (.value "Enter an API key or generate one, not both.".toList)
  else if request.removeStoredApiKey ∧ (request.enteredKey.isSome ∨ request.generateApiKey) then
    .error (.value "Remove the stored API key or replace it, not both at once.".toList)
  else if env.apiKey.isSome ∧ (request.enteredKey.isSome ∨ request.generateApiKey ∨
      request.removeStoredApiKey) then
    .error (.value "OV_LLM_API_KEY is controlling authentication for this process.".toList)
  else .ok ()

def replacementKey (token : Str) : Except Str (Option Str) :=
  if request.generateApiKey then do
    let key ← DesktopApiKeyStore.validateUserKey platform (DesktopApiKeyStore.generate token)
    .ok (some key)
  else match request.enteredKey with
    | some value => do
      let key ← DesktopApiKeyStore.validateUserKey platform value
      .ok (some key)
    | none => .ok none

def proposedKey (env : Environment) (replacement : Option Str) (store : DesktopApiKeyStore) :
    Option Str × DesktopApiKeyStore :=
  match env.apiKey with
  | some value =>
    let key := strip isSpace value
    (if key ≠ [] then some key else none, store)
  | none =>
    match replacement with
    | some key => (some key, store)
    | none => if request.removeStoredApiKey then (none, store) else store.getKey platform

/-- The exposure that is asked for has a key, and the wildcard is acknowledged. -/
def checkExposure (cors : Str) (proposed : Option Str) : Except UpdateError Unit :=
  if request.allowLan ∧ proposed = none then
    .error (.value "LAN access requires an API key before it can be enabled.".toList)
  else if cors = ['*'] then
    if proposed = none then
      .error (.value "Wildcard CORS requires an API key in the desktop application.".toList)
    else if ¬ request.acknowledgeWildcardCors then
      .error (.value "Confirm the wildcard CORS warning before applying '*'.".toList)
    else .ok ()
  else .ok ()

/-- The second write. -/
def commitKey (replacement : Option Str) (store : DesktopApiKeyStore) (fails : Bool) :
    Except UpdateError DesktopApiKeyStore :=
  match replacement with
  | some key => store.setKey platform key fails
  | none =>
    if request.removeStoredApiKey then DesktopApiKeyStore.remove fails else .ok store

end DesktopNetworkUpdateRequest

/-- What the state store makes of the saved origins. -/
def savedOrigins (cors : Str) : Str :=
  (strip isSpace (cors.filter platform.isPrintable)).take 2048

namespace DesktopNetworkService

/-- `update`: the key it generated, or what it raises, and the service afterwards. -/
def update (base : NetworkSettings) (env : Environment) (s : DesktopNetworkService)
    (request : DesktopNetworkUpdateRequest) (token : Str) (failures : UpdateFailures) :
    Except UpdateError (Option Str) × DesktopNetworkService :=
  match request.check env with
  | .error e => (.error e, s)
  | .ok () =>
  match normalizeCorsOrigins platform request.corsOrigins with
  | .error message => (.error (.value message), s)
  | .ok cors =>
  match request.replacementKey platform token with
  | .error message => (.error (.value message), s)
  | .ok replacement =>
  let (proposed, store) := request.proposedKey platform env replacement s.store
  let s := { s with store }
  match request.checkExposure cors proposed with
  | .error e => (.error e, s)
  | .ok () =>
  match failures.state with
  | some e => (.error e, s)
  | none =>
  let s := { s with state := ⟨request.allowLan, savedOrigins platform cors⟩ }
  match request.commitKey platform replacement s.store failures.credential with
  | .error e => (.error e, s)
  | .ok store =>
  -- the status at the end reads the key once more
  (.ok (if request.generateApiKey then some (DesktopApiKeyStore.generate token) else none),
    { s with store := (resolveDesktopNetworkSettings platform base env s.state store).2 })

inductive Event where
  | update (request : DesktopNetworkUpdateRequest) (token : Str) (failures : UpdateFailures)
  | status
  /-- the process ends, and the next one reads the files -/
  | restart
deriving DecidableEq, Repr

def step (base : NetworkSettings) (env : Environment) (s : DesktopNetworkService) :
    Event → Option DesktopNetworkService
  | .update request token failures => some (s.update platform base env request token failures).2
  | .status =>
    some { s with store := (resolveDesktopNetworkSettings platform base env s.state s.store).2 }
  | .restart => some { s with store := { s.store with memoryKey := none } }

end DesktopNetworkService

/-! ### What the server makes of the key -/

/-- `_configured_keys` and the list of `require_api_key`. -/
def NetworkSettings.configuredKeys (settings : NetworkSettings) : List Str :=
  commaItems (settings.apiKey.getD [])

/-- `require_api_key`: the active key of an accepted request. -/
def requireApiKey (settings : NetworkSettings) (authorization : Option Str) : Option Str :=
  if settings.apiKey.getD [] = [] then some "default".toList
  else
    let validKeysList := commaItems (settings.apiKey.getD [])
    if validKeysList = [] then some "default".toList
    else match authorization with
      | none => none
      | some header =>
        if "Bearer ".toList <+: header then
          validKeysList.find? fun k => header.drop "Bearer ".toList.length = k
        else none

/-! ### Keys -/

variable {platform}

/-- A text has no item exactly if it is made of commas and white space. -/
theorem commaItems_eq_nil_iff (text : Str) :
    commaItems text = [] ↔ ∀ c ∈ text, c = ',' ∨ isSpace c = true := by
  have hitems : commaItems text = [] ↔ ∀ item ∈ text.splitOn ',', ∀ c ∈ item, isSpace c = true := by
    simp [commaItems, List.filter_eq_nil_iff, strip_eq_nil_iff]
  rw [hitems]
  clear hitems
  induction text with
  | nil => simp
  | cons c rest ih =>
    have hne := List.splitOnP_ne_nil (fun d => d == ',') rest
    rw [List.splitOn, List.splitOnP_cons_eq_if_modifyHead]
    rw [List.splitOn] at ih
    rcases hsplit : rest.splitOnP fun d => d == ',' with - | ⟨first, others⟩
    · exact absurd hsplit hne
    · rw [hsplit] at ih
      have hrest : (∀ d ∈ rest, d = ',' ∨ isSpace d = true) ↔
          (∀ d ∈ first, isSpace d = true) ∧ ∀ item ∈ others, ∀ d ∈ item, isSpace d = true :=
        ih.symm.trans List.forall_mem_cons
      by_cases hc : c = ','
      · simp [hc, hrest]
      · simp [hc, hrest, and_assoc]

/-- A key that the store hands out: one item for the server. -/
def SingleKey (key : Str) : Prop := key ≠ [] ∧ ∀ c ∈ key, c ≠ ',' ∧ isSpace c = false

theorem SingleKey.items {key : Str} (h : SingleKey key) : commaItems key ≠ [] := by
  intro hnil
  obtain ⟨c, hc⟩ := List.exists_mem_of_ne_nil _ h.1
  obtain ⟨hcomma, hspace⟩ := h.2 c hc
  rcases (commaItems_eq_nil_iff key).mp hnil c hc with hc' | hc'
  · exact hcomma hc'
  · rw [hspace] at hc'
    exact Bool.false_ne_true hc'

namespace DesktopApiKeyStore

theorem validateUserKey_single {value key : Str} (h : validateUserKey platform value = .ok key) :
    SingleKey key := by
  rw [validateUserKey] at h
  split_ifs at h with hlength hchars hcomma
  obtain rfl := Except.ok.inj h
  have hlength := hlength.1
  refine ⟨?_, ?_⟩
  · intro hnil
    rw [hnil] at hlength
    exact absurd hlength (by decide)
  · intro c hc
    refine ⟨?_, ?_⟩
    · rintro rfl
      exact hcomma hc
    · by_contra hspace
      apply hchars
      rw [List.any_eq_true]
      exact ⟨c, hc, by simp [hspace]⟩

/-- What the store has in memory was checked. -/
def Sound (store : DesktopApiKeyStore) : Prop := ∀ key, store.memoryKey = some key → SingleKey key

variable {store : DesktopApiKeyStore}

theorem storedKey_single {key : Str} (h : storedKey platform store = some key) :
    SingleKey key := by
  rw [storedKey] at h
  split_ifs at h
  obtain ⟨text, -, hvalid⟩ := Option.bind_eq_some_iff.mp h
  rcases hcheck : validateUserKey platform text with e | valid
  · rw [hcheck] at hvalid
    cases hvalid
  · rw [hcheck] at hvalid
    obtain rfl : valid = key := Option.some.inj hvalid
    exact validateUserKey_single hcheck

theorem Sound.getKey (h : store.Sound) (platform : Platform) :
    (∀ key, (store.getKey platform).1 = some key → SingleKey key) ∧
      (store.getKey platform).2.Sound := by
  rw [DesktopApiKeyStore.getKey]
  rcases hmemory : store.memoryKey.filter (· ≠ []) with - | key
  · rcases hstored : storedKey platform store with - | key
    · exact ⟨fun key hkey => (by cases hkey), h⟩
    · have hsingle := storedKey_single hstored
      refine ⟨?_, ?_⟩
      · rintro key' hkey
        exact Option.some.inj hkey ▸ hsingle
      · intro key' hkey
        exact Option.some.inj hkey ▸ hsingle
  · refine ⟨?_, h⟩
    rintro key' hkey
    obtain rfl : key = key' := Option.some.inj hkey
    exact h key (Option.filter_eq_some_iff.mp hmemory).1

theorem setKey_sound {store' : DesktopApiKeyStore} {value : Str} {fails : Bool}
    (h : store.setKey platform value fails = .ok store') : store'.Sound := by
  rw [setKey] at h
  rcases hvalid : validateUserKey platform value with e | key
  · rw [hvalid] at h
    cases h
  · rw [hvalid] at h
    have hsingle := validateUserKey_single hvalid
    simp only at h
    split_ifs at h
    · obtain rfl := Except.ok.inj h
      rintro key' hkey
      exact Option.some.inj hkey ▸ hsingle
    · obtain rfl := Except.ok.inj h
      rintro key' hkey
      exact Option.some.inj hkey ▸ hsingle

theorem remove_sound {store' : DesktopApiKeyStore} {fails : Bool} (h : remove fails = .ok store') :
    store'.Sound := by
  rw [remove] at h
  split_ifs at h
  obtain rfl := Except.ok.inj h
  rintro key hkey
  cases hkey

end DesktopApiKeyStore

/-! ### What is resolved -/

variable {base : NetworkSettings} {env : Environment} {state : DesktopState}
  {store : DesktopApiKeyStore}

theorem isLoopbackHost_loopback : isLoopbackHost platform loopbackBindHost = true := by
  have hknown : loopbackHosts.contains
      (strip (fun c => c = '[' ∨ c = ']') (lower (cleanHost loopbackBindHost))) = true := by
    decide
  rw [isLoopbackHost, Bool.or_eq_true]
  exact .inl hknown

/-- The key is the variable without the white space around it, or what the store hands out. -/
theorem resolveApiKey_spec (hstore : store.Sound) :
    (∀ key, (resolveApiKey platform env store).1.1 = some key →
      (∃ value, env.apiKey = some value ∧ key = strip isSpace value ∧ key ≠ []) ∨
        (env.apiKey = none ∧ SingleKey key)) ∧
      (resolveApiKey platform env store).2.Sound := by
  rw [resolveApiKey]
  rcases hkey : env.apiKey with - | value
  · obtain ⟨hsingle, hnext⟩ := hstore.getKey platform
    rcases hget : store.getKey platform with ⟨_ | key, store'⟩
    · rw [hget] at hnext
      exact ⟨fun key hkey => (by cases hkey), hnext⟩
    · rw [hget] at hsingle hnext
      refine ⟨?_, hnext⟩
      intro key' hkey'
      exact .inr ⟨rfl, hsingle key' hkey'⟩
  · by_cases hblank : strip isSpace value ≠ []
    · simp only [if_pos hblank]
      refine ⟨?_, hstore⟩
      intro key hsome
      obtain rfl := Option.some.inj hsome
      exact .inl ⟨value, rfl, rfl, hblank⟩
    · simp only [if_neg hblank]
      exact ⟨fun key hsome => (by cases hsome), hstore⟩

theorem resolve_settings (base : NetworkSettings) (env : Environment) (state : DesktopState)
    (store : DesktopApiKeyStore) :
    (resolveDesktopNetworkSettings platform base env state store).1.settings =
      base.replace
        (if bindExposesNetwork platform (resolveDesktopBindHost state env).1 ∧
            (resolveApiKey platform env store).1.1 = none then loopbackBindHost
          else (resolveDesktopBindHost state env).1)
        (if (resolveCors platform state env).1 = ['*'] ∧
            (resolveApiKey platform env store).1.1 = none then []
          else (resolveCors platform state env).1)
        (resolveApiKey platform env store).1.1 := by
  simp only [resolveDesktopNetworkSettings]
  split_ifs <;> rfl

theorem resolve_store (base : NetworkSettings) (env : Environment) (state : DesktopState)
    (store : DesktopApiKeyStore) :
    (resolveDesktopNetworkSettings platform base env state store).2 =
      (resolveApiKey platform env store).2 := rfl

/-- The server can be reached from elsewhere, or by any web page. -/
def NetworkSettings.Exposed (platform : Platform) (settings : NetworkSettings) : Prop :=
  isLoopbackHost platform settings.host = false ∨ settings.corsOrigins = ['*']

/-- The exposure that the environment and the saved state ask for. -/
def RequestsExposure (platform : Platform) (env : Environment) (state : DesktopState) : Prop :=
  isLoopbackHost platform (resolveDesktopBindHost state env).1 = false ∨
    (resolveCors platform state env).1 = ['*']

/-- The variable is not blank, but holds nothing besides commas and white space. -/
def Environment.OnlySeparators (env : Environment) : Prop :=
  ∃ value, env.apiKey = some value ∧ (∃ c ∈ value, isSpace c = false) ∧
    ∀ c ∈ value, c = ',' ∨ isSpace c = true

/-- Without a key nothing is exposed; with one, everything that is asked for. -/
theorem exposed_resolve_iff :
    ((resolveDesktopNetworkSettings platform base env state store).1.settings.Exposed platform) ↔
      (resolveApiKey platform env store).1.1 ≠ none ∧ RequestsExposure platform env state := by
  rw [resolve_settings, NetworkSettings.Exposed]
  simp only [NetworkSettings.replace]
  by_cases hkey : (resolveApiKey platform env store).1.1 = none
  · refine iff_of_false ?_ (fun h => h.1 hkey)
    rintro (hhost | hcors)
    · split_ifs at hhost with hexposes
      · rw [isLoopbackHost_loopback] at hhost
        exact Bool.false_ne_true hhost.symm
      · apply hexposes
        refine ⟨?_, hkey⟩
        show (!isLoopbackHost platform _) = true
        rw [hhost]
        rfl
    · split_ifs at hcors with hwildcard
      exact hwildcard ⟨hcors, hkey⟩
  · rw [if_neg fun h => hkey h.2, if_neg fun h => hkey h.2]
    exact (and_iff_right hkey).symm

/-- Where the resolver has a key, the server has none exactly if the variable holds separators
only. -/
theorem configuredKeys_resolve (hstore : store.Sound)
    (hkey : (resolveApiKey platform env store).1.1 ≠ none) :
    (resolveDesktopNetworkSettings platform base env state store).1.settings.configuredKeys = [] ↔
      env.OnlySeparators := by
  obtain ⟨key, hsome⟩ := Option.ne_none_iff_exists'.mp hkey
  rw [resolve_settings, hsome]
  show commaItems key = [] ↔ _
  rcases (resolveApiKey_spec hstore).1 key hsome with ⟨value, hvalue, rfl, hblank⟩ | ⟨hnone, hsingle⟩
  · rw [commaItems_eq_nil_iff]
    constructor
    · intro hall
      refine ⟨value, hvalue, ?_, ?_⟩
      · by_contra hnone
        apply hblank
        rw [strip_eq_nil_iff]
        intro c hc
        by_contra hspace
        exact hnone ⟨c, hc, by simpa using hspace⟩
      · intro c hc
        by_cases hspace : isSpace c = true
        · exact .inr hspace
        · exact hall c (mem_strip hc (by simpa using hspace))
    · rintro ⟨value', hvalue', -, hall⟩ c hc
      obtain rfl : value = value' := by simpa [hvalue] using hvalue'
      exact hall c ((strip_isInfix isSpace value).subset hc)
  · refine iff_of_false hsingle.items ?_
    rintro ⟨value, hvalue, -⟩
    rw [hnone] at hvalue
    cases hvalue

/-! ### Updates keep the store checked -/

theorem proposedKey_sound (platform : Platform) (env : Environment)
    (request : DesktopNetworkUpdateRequest) (replacement : Option Str) (hstore : store.Sound) :
    (request.proposedKey platform env replacement store).2.Sound := by
  unfold DesktopNetworkUpdateRequest.proposedKey
  rcases env.apiKey with - | value
  · rcases replacement with - | key
    · simp only
      split_ifs
      · exact hstore
      · exact (hstore.getKey platform).2
    · exact hstore
  · exact hstore

theorem commitKey_sound {request : DesktopNetworkUpdateRequest} {replacement : Option Str}
    {fails : Bool} {store' : DesktopApiKeyStore} (hstore : store.Sound)
    (h : request.commitKey platform replacement store fails = .ok store') : store'.Sound := by
  unfold DesktopNetworkUpdateRequest.commitKey at h
  rcases replacement with - | key
  · simp only at h
    split_ifs at h
    · exact DesktopApiKeyStore.remove_sound h
    · exact Except.ok.inj h ▸ hstore
  · exact DesktopApiKeyStore.setKey_sound h

namespace DesktopNetworkService

theorem update_sound {s : DesktopNetworkService} (h : s.store.Sound)
    (request : DesktopNetworkUpdateRequest) (token : Str) (failures : UpdateFailures) :
    (s.update platform base env request token failures).2.store.Sound := by
  rw [update]
  rcases request.check env with e | -
  · exact h
  rcases normalizeCorsOrigins platform request.corsOrigins with message | cors
  · exact h
  rcases request.replacementKey platform token with message | replacement
  · exact h
  have hproposed := proposedKey_sound platform env request replacement h
  simp only
  generalize request.proposedKey platform env replacement s.store = proposal at hproposed ⊢
  rcases request.checkExposure cors proposal.1 with e | -
  · exact hproposed
  rcases failures.state with - | e
  · -- the state is written; the key may still fail
    simp only
    rcases hcommit : request.commitKey platform replacement proposal.2 failures.credential with
      e | store
    · exact hproposed
    · exact (resolveApiKey_spec (commitKey_sound hproposed hcommit)).2
  · exact hproposed

theorem step_sound {s s' : DesktopNetworkService} {e : Event} (h : s.store.Sound)
    (he : s.step platform base env e = some s') : s'.store.Sound := by
  cases e with
  | update request token failures =>
    obtain rfl := Option.some.inj he
    exact update_sound h request token failures
  | status =>
    obtain rfl := Option.some.inj he
    exact (resolveApiKey_spec h).2
  | restart =>
    obtain rfl := Option.some.inj he
    intro key hkey
    cases hkey

end DesktopNetworkService

/-! ### Exposed servers -/

/-- An accepted request has one of the keys, where there is any. -/
theorem requireApiKey_eq_some {settings : NetworkSettings} {authorization : Option Str} {key : Str}
    (hkeys : settings.configuredKeys ≠ []) (h : requireApiKey settings authorization = some key) :
    key ∈ settings.configuredKeys ∧ authorization = some ("Bearer ".toList ++ key) := by
  have hset : settings.apiKey.getD [] ≠ [] := by
    intro hnil
    apply hkeys
    rw [NetworkSettings.configuredKeys, hnil]
    rfl
  rw [requireApiKey, if_neg hset] at h
  simp only at h
  rw [if_neg (by exact hkeys)] at h
  rcases authorization with - | header
  · cases h
  · simp only at h
    split_ifs at h with hbearer
    obtain ⟨token, rfl⟩ := hbearer
    rw [List.drop_left] at h
    have htoken : token = key := by simpa using List.find?_some h
    exact ⟨List.mem_of_find?_eq_some h, by rw [htoken]⟩

/-- The server has a key and accepts nobody without one. -/
def NetworkSettings.Authenticated (settings : NetworkSettings) : Prop :=
  settings.configuredKeys ≠ [] ∧ ∀ authorization key,
    requireApiKey settings authorization = some key →
      key ∈ settings.configuredKeys ∧ authorization = some ("Bearer ".toList ++ key)

theorem authenticated_iff {settings : NetworkSettings} :
    settings.Authenticated ↔ settings.configuredKeys ≠ [] :=
  ⟨And.left, fun h => ⟨h, fun _ _ => requireApiKey_eq_some h⟩⟩

/-- **After any sequence of updates, whichever of their writes fail, an exposed server is
authenticated, unless exposure is asked for and the key variable holds nothing besides commas
and white space.** -/
theorem desktop_exposure_authenticated {init s : DesktopNetworkService}
    {es : List DesktopNetworkService.Event} (hinit : init.store.memoryKey = none)
    (hrun : Transition.run (DesktopNetworkService.step platform base env) init es = some s) :
    let settings := (resolveDesktopNetworkSettings platform base env s.state s.store).1.settings
    (settings.Exposed platform → settings.Authenticated) ↔
      ¬ (env.OnlySeparators ∧ RequestsExposure platform env s.state) := by
  have hstore : s.store.Sound := by
    refine Transition.run_always (I := fun s => s.store.Sound)
      (fun _ _ _ hs he => DesktopNetworkService.step_sound hs he) ?_ hrun
    intro key hkey
    rw [hinit] at hkey
    cases hkey
  simp only [exposed_resolve_iff, authenticated_iff]
  constructor
  · rintro h ⟨hseparators, hrequest⟩
    have hkey : (resolveApiKey platform env s.store).1.1 ≠ none := by
      obtain ⟨value, hvalue, ⟨c, hc, hspace⟩, -⟩ := hseparators
      have hblank : strip isSpace value ≠ [] := List.ne_nil_of_mem (mem_strip hc hspace)
      rw [resolveApiKey, hvalue]
      simp [hblank]
    exact h ⟨hkey, hrequest⟩ ((configuredKeys_resolve hstore hkey).mpr hseparators)
  · rintro h ⟨hkey, hrequest⟩ hnil
    exact h ⟨(configuredKeys_resolve hstore hkey).mp hnil, hrequest⟩

/-- Addresses besides the two bind hosts, URLs and other tables left out. -/
def Platform.plain : Platform where
  isLoopbackAddress text := if text = lanBindHost then some false else none
  urlsplit _ := none
  isPrintable c := 32 ≤ c.toNat && c.toNat < 127
  windows := false

/-- An update that enables LAN access. -/
def enableLan (generateApiKey : Bool) : DesktopNetworkService.Event :=
  .update ⟨true, [], none, generateApiKey, false, false⟩ "0123456789abcdefghijklmn".toList
    ⟨none, false⟩

/-- LAN access is enabled together with a generated key. -/
theorem desktop_exposure_authenticated_generated :
    ∃ s, Transition.run (DesktopNetworkService.step Platform.plain ⟨loopbackBindHost, [], none⟩
        ⟨none, none, none⟩) ⟨⟨false, []⟩, ⟨none, none⟩⟩ [enableLan true] = some s ∧
      (resolveDesktopNetworkSettings Platform.plain ⟨loopbackBindHost, [], none⟩
        ⟨none, none, none⟩ s.state s.store).1.settings.Authenticated := by
  refine ⟨_, rfl, ?_⟩
  have hrun : Transition.run (DesktopNetworkService.step Platform.plain ⟨loopbackBindHost, [], none⟩
      ⟨none, none, none⟩) ⟨⟨false, []⟩, ⟨none, none⟩⟩ [enableLan true] = some _ := rfl
  apply (desktop_exposure_authenticated rfl hrun).mpr
  · rintro ⟨⟨value, hvalue, -⟩, -⟩
    cases hvalue
  · exact .inl (by decide)

/-- A single comma as the key: LAN access is enabled, and the server has no key. -/
theorem desktop_exposure_single_comma :
    ¬ ∀ (platform : Platform) (base : NetworkSettings) (env : Environment)
        (init s : DesktopNetworkService) (es : List DesktopNetworkService.Event),
      init.store.memoryKey = none →
        Transition.run (DesktopNetworkService.step platform base env) init es = some s →
          (resolveDesktopNetworkSettings platform base env s.state s.store).1.settings.Exposed
            platform →
          (resolveDesktopNetworkSettings platform base env s.state s.store).1.settings.configuredKeys
            ≠ [] := by
  intro h
  apply h Platform.plain ⟨loopbackBindHost, [], some [',']⟩ ⟨none, none, some [',']⟩
    ⟨⟨false, []⟩, ⟨none, none⟩⟩ _ [enableLan false] rfl rfl
  · exact .inl (by decide)
  · decide

end InferBridge
